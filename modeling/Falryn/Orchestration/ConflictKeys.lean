import Falryn.Foundation.CodeUnits
import Falryn.Workspace.LocalPath

/-!
# Conflict keys

`conflictKey` and `normalizeTarget` of `domain/orchestration/work.ts`.  The white space around a target
is dropped before the target is taken apart, so a name that begins or ends with white space is kept in
one spelling and cut in another.  `conflictKey_canonical_iff` says for which targets no spelling matters.
-/

namespace Falryn.Orchestration

open Workspace.Paths

/-- White space and line ends, as `trim` sees them. -/
def isBlankChar (c : Char) : Bool := c.val < 0x10000 && isBlank c.val.toUInt16

/-- `text.trim()` -/
def trimText (text : PathText) : PathText := (text.dropWhile isBlankChar).rdropWhile isBlankChar

/-- `text.replace(/\/{2,}/g, "/")` -/
def squeeze : PathText → PathText
  | [] => []
  | '/' :: '/' :: rest => squeeze ('/' :: rest)
  | c :: rest => c :: squeeze rest

def normalizeTarget (target : PathText) : PathText :=
  let collapsed := squeeze (forwardSlashes (trimText target))
  let joined := joinSegments ((collapsed.splitOn '/').foldl collapse [])
  if collapsed.head? = some '/' then '/' :: joined else joined

/-- The family a key belongs to. -/
def keyFamily (toLowerCase : PathText → PathText) (kind : PathText) : PathText :=
  toLowerCase (trimText kind)

def conflictKey (toLowerCase : PathText → PathText) (kind target : PathText) : PathText :=
  keyFamily toLowerCase kind ++ ':' :: normalizeTarget target

/-! ## Spellings -/

/-- The segments of a target, with either separator. -/
def segmentsOf (target : PathText) : List PathText := (forwardSlashes target).splitOn '/'

/-- A target begins with a separator. -/
def Rooted (target : PathText) : Prop := (forwardSlashes target).head? = some '/'

/-- Segments that say nothing: between two separators or after the last, ".", and "x/..". -/
inductive Idle : List PathText → Prop where
  | empty : Idle [[]]
  | here : Idle [['.']]
  | back {name : PathText} (h : ¬(name = [] ∨ name = ['.'])) (h' : name ≠ ['.', '.']) :
    Idle [name, ['.', '.']]

/-- One place says nothing more. -/
def Respelled (spelling shorter : List PathText) : Prop :=
  ∃ before idle after, Idle idle ∧ spelling = before ++ idle ++ after ∧ shorter = before ++ after

/-- Two targets differ only by segments that say nothing and in which separators they use. -/
structure SameTarget (target other : PathText) : Prop where
  rooted : Rooted target ↔ Rooted other
  segments : Relation.EqvGen Respelled (segmentsOf target) (segmentsOf other)

/-- The last name that no ".." takes back, found from the right. -/
def lastNameFrom : ℕ → List PathText → Option PathText
  | _, [] => none
  | pending, segment :: before =>
    if segment = [] ∨ segment = ['.'] then lastNameFrom pending before
    else if segment = ['.', '.'] then lastNameFrom (pending + 1) before
    else if pending = 0 then some segment
    else lastNameFrom (pending - 1) before

/-- A target begins with a separator and the last name left of it does not end in white space. -/
def Unambiguous (target : PathText) : Prop :=
  Rooted target ∧ ∀ name, lastNameFrom 0 (segmentsOf target).reverse = some name →
    ∀ c, name.getLast? = some c → isBlankChar c = false

/-! ## What is left of a target -/

/-- The names of a target. -/
def namesOf (target : PathText) : List PathText := (segmentsOf target).foldl collapse []

theorem foldl_squeeze (text : PathText) : ∀ (before : PathText) (names : List PathText),
    ((before ++ squeeze text).splitOn '/').foldl collapse names
      = ((before ++ text).splitOn '/').foldl collapse names := by
  induction text using squeeze.induct with
  | case1 => exact fun _ _ => rfl
  | case2 rest ih =>
    intro before names
    rw [squeeze, ih, List.splitOn_append_cons_self, List.splitOn_append_cons_self,
      ← List.nil_append ('/' :: rest), List.splitOn_append_cons_self, List.foldl_append,
      List.foldl_append, List.foldl_append]
    rfl
  | case3 _ rest hrest ih =>
    intro before names
    rw [squeeze, List.append_cons, ih, ← List.append_cons]
    exact hrest

theorem head?_squeeze (text : PathText) : (squeeze text).head? = text.head? := by
  induction text using squeeze.induct with
  | case1 => rfl
  | case2 rest ih => rw [squeeze, ih]; rfl
  | case3 _ rest hrest ih => rw [squeeze]; rfl; exact hrest

theorem normalizeTarget_eq (target : PathText) :
    normalizeTarget target = (if (forwardSlashes (trimText target)).head? = some '/' then ['/'] else [])
      ++ joinSegments (namesOf (trimText target)) := by
  have h := foldl_squeeze (forwardSlashes (trimText target)) [] []
  rw [List.nil_append, List.nil_append] at h
  unfold normalizeTarget namesOf segmentsOf
  dsimp only
  rw [h, head?_squeeze]
  split_ifs <;> rfl

theorem proper_namesOf (target : PathText) : ∀ name ∈ namesOf target, ProperSegment name :=
  proper_foldl_collapse (fun _ hpiece => ⟨Splitting.not_mem_of_mem_splitOn hpiece,
    fun h => no_backslash_forwardSlashes target (Splitting.mem_of_mem_splitOn hpiece h)⟩)
    nofun

/-- What a target says, with its names as they are. -/
def locationOf (target : PathText) : Location :=
  ⟨none, namesOf target, fun _ h => (nomatch h), proper_namesOf target⟩

/-- **The search from the right finds the last name.** -/
theorem lastNameFrom_eq (segments : List PathText) : ∀ pending,
    lastNameFrom pending segments.reverse = (segments.foldl collapse []).reverse[pending]? := by
  induction segments using List.reverseRecOn with
  | nil => exact fun _ => rfl
  | append_singleton segments _ ih =>
    intro pending
    rw [List.reverse_append, List.reverse_singleton, List.singleton_append, lastNameFrom,
      List.foldl_append, List.foldl_cons, List.foldl_nil, collapse]
    split_ifs with hskip hdots hzero
    · exact ih pending
    · rw [ih, ← List.tail_reverse, List.getElem?_tail]
    · rw [hzero, List.reverse_append]
      rfl
    · obtain ⟨pending, rfl⟩ := Nat.exists_eq_succ_of_ne_zero hzero
      rw [List.reverse_append]
      exact ih pending

theorem lastName_eq (target : PathText) :
    lastNameFrom 0 (segmentsOf target).reverse = (namesOf target).getLast? := by
  rw [lastNameFrom_eq, namesOf, ← List.head?_reverse, List.head?_eq_getElem?]

variable {target other : PathText}

/-- Spellings of one target leave the same names. -/
theorem namesOf_eq (h : SameTarget target other) : namesOf target = namesOf other := by
  have hfold : ∀ {a b : List PathText}, Relation.EqvGen Respelled a b →
      a.foldl collapse [] = b.foldl collapse [] := by
    intro a b hab
    induction hab with
    | rel a b hstep =>
      obtain ⟨before, idle, after, hidle, rfl, rfl⟩ := hstep
      rw [List.foldl_append, List.foldl_append, List.foldl_append]
      congr 1
      cases hidle with
      | empty => rfl
      | here => rfl
      | back hname hdots =>
        rw [List.foldl_cons, List.foldl_cons, List.foldl_nil, collapse, collapse, if_neg hname,
          if_neg hdots, if_neg (by decide), if_pos rfl, List.dropLast_concat]
    | refl => rfl
    | symm _ _ _ ih => exact ih.symm
    | trans _ _ _ _ _ ih ih' => exact ih.trans ih'
  exact hfold h.segments

variable {text : PathText} {c : Char} {names : List PathText}

/-- A text that ends in no separator ends as its last segment does. -/
theorem last_segment (h : text.getLast? = some c) (hc : c ≠ '/') :
    ∃ before segment, text.splitOn '/' = before ++ [segment] ∧ segment.getLast? = some c := by
  obtain ⟨before, segment, hsplit⟩ :=
    (List.eq_nil_or_concat' (text.splitOn '/')).resolve_left (List.splitOn_ne_nil _ _)
  refine ⟨before, segment, hsplit, ?_⟩
  have htext : ['/'].intercalate (text.splitOn '/') = text := List.intercalate_splitOn _
  rw [hsplit] at htext
  by_cases hbefore : before = []
  · rw [hbefore, List.nil_append, List.intercalate_singleton] at htext
    rwa [htext]
  · rw [Splitting.intercalate_append hbefore (List.cons_ne_nil _ _), List.intercalate_singleton] at htext
    rw [← htext, List.getLast?_append, List.getLast?_cons] at h
    rcases hlast : segment.getLast? with _ | d
    · rw [hlast] at h
      exact absurd (Option.some.inj h).symm hc
    · rw [hlast] at h
      exact h

/-! ## Which white space is dropped -/

theorem trimText_cons (h : isBlankChar c = false) (text : PathText) :
    ∃ rest, trimText (c :: text) = c :: rest := by
  rw [trimText, List.dropWhile_cons_of_neg (by rw [h]; decide)]
  obtain ⟨dropped, hdropped⟩ := List.rdropWhile_prefix isBlankChar (c :: text)
  rcases hkept : (c :: text).rdropWhile isBlankChar with _ | ⟨d, kept⟩
  · rw [List.rdropWhile_eq_nil_iff] at hkept
    rw [hkept c List.mem_cons_self] at h
    cases h
  · rw [hkept] at hdropped
    cases hdropped
    exact ⟨kept, rfl⟩

theorem trimText_eq_self (hfirst : ∀ c, text.head? = some c → isBlankChar c = false)
    (hlast : ∀ c, text.getLast? = some c → isBlankChar c = false) : trimText text = text := by
  rcases text with _ | ⟨c, text⟩
  · rfl
  · rw [trimText, List.dropWhile_cons_of_neg (by rw [hfirst c rfl]; decide), List.rdropWhile_eq_self_iff]
    intro hne
    rw [hlast _ (List.getLast?_eq_some_getLast hne)]
    decide

theorem length_trimText_lt (h : text.getLast? = some c)
    (hblank : isBlankChar c = true) : (trimText text).length < text.length := by
  have hstart := List.rdropWhile_prefix isBlankChar (text.dropWhile isBlankChar)
  have hsuffix := List.dropWhile_suffix (l := text) isBlankChar
  refine lt_of_le_of_ne (hstart.length_le.trans hsuffix.length_le) fun heq => ?_
  have htext : text.dropWhile isBlankChar = text :=
    hsuffix.eq_of_length (le_antisymm hsuffix.length_le (heq ▸ hstart.length_le))
  rw [trimText, htext] at heq
  rw [htext] at hstart
  have hne : text ≠ [] := fun hnil => by rw [hnil] at h; cases h
  refine List.rdropWhile_eq_self_iff.1 (hstart.eq_of_length heq) hne ?_
  rw [List.getLast?_eq_some_getLast hne] at h
  rwa [Option.some.inj h]

theorem getLast?_joinSegments {name : PathText}
    (h : names.getLast? = some name) (hc : name.getLast? = some c) :
    (joinSegments names).getLast? = some c := by
  obtain ⟨before, rfl⟩ := List.getLast?_eq_some_iff.1 h
  by_cases hbefore : before = []
  · rwa [hbefore, List.nil_append, joinSegments, List.intercalate_singleton]
  · rw [joinSegments, Splitting.intercalate_append hbefore (List.cons_ne_nil _ _),
      List.intercalate_singleton, List.getLast?_append, List.getLast?_cons, hc]
    rfl

theorem Rooted.first (h : Rooted target) : ∃ c rest, target = c :: rest ∧ (c = '/' ∨ c = '\\') := by
  rcases target with _ | ⟨c, rest⟩
  · cases h
  · refine ⟨c, rest, rfl, ?_⟩
    have hc : (if c = '\\' then '/' else c) = '/' := Option.some.inj h
    split_ifs at hc with hback
    · exact .inr hback
    · exact .inl hc

theorem blank_separator (h : c = '/' ∨ c = '\\') : isBlankChar c = false := by
  rcases h with rfl | rfl <;> decide

/-- A spelling of an unambiguous target loses nothing at its ends. -/
theorem Unambiguous.trimText_eq (h : Unambiguous target) (hrooted : Rooted other)
    (hnames : namesOf other = namesOf target) : trimText other = other := by
  obtain ⟨first, rest, hother, hfirst⟩ := hrooted.first
  refine trimText_eq_self (fun c hc => ?_) fun c hc => Bool.eq_false_iff.2 fun hblank => ?_
  · rw [hother] at hc
    cases hc
    exact blank_separator hfirst
  · have hne : c ≠ '/' ∧ c ≠ '\\' ∧ c ≠ '.' := by
      refine ⟨?_, ?_, ?_⟩ <;> rintro rfl <;> exact absurd hblank (by decide)
    have hforward : (forwardSlashes other).getLast? = some c := by
      rw [forwardSlashes, List.getLast?_map, hc]
      exact congrArg some (if_neg hne.2.1)
    obtain ⟨before, segment, hsplit, hlast⟩ := last_segment hforward hne.1
    have hsegment : ¬(segment = [] ∨ segment = ['.']) ∧ segment ≠ ['.', '.'] := by
      refine ⟨not_or.2 ⟨?_, ?_⟩, ?_⟩ <;> rintro rfl <;> cases hlast <;> exact hne.2.2 rfl
    have hlastName : (namesOf target).getLast? = some segment := by
      rw [← hnames, namesOf, segmentsOf, hsplit, List.foldl_append, List.foldl_cons, List.foldl_nil,
        collapse, if_neg hsegment.1, if_neg hsegment.2, List.getLast?_concat]
    rw [h.2 segment (by rw [lastName_eq, hlastName]) c hlast] at hblank
    cases hblank

/-- **An unambiguous target** has one normal form in every spelling. -/
theorem Unambiguous.normalizeTarget_eq (h : Unambiguous target)
    (hrooted : Rooted other) (hnames : namesOf other = namesOf target) :
    normalizeTarget other = (locationOf target).text := by
  rw [Orchestration.normalizeTarget_eq, h.trimText_eq hrooted hnames, hnames]
  exact congrArg (· ++ _) (if_pos hrooted)

theorem namesOf_text (target : PathText) : Rooted (locationOf target).text
    ∧ namesOf (locationOf target).text = namesOf target := by
  have htext : (locationOf target).text = '/' :: joinSegments (namesOf target) := rfl
  have hback := forwardSlashes_eq_self (locationOf target).no_backslash_text
  refine ⟨by rw [Rooted, hback, htext]; rfl, ?_⟩
  rw [namesOf, segmentsOf, hback, htext, ← List.nil_append ('/' :: _), List.splitOn_append_cons_self,
    List.foldl_append]
  exact (locationOf target).foldl_collapse_join

/-! ## Where a spelling matters -/

theorem length_normalizeTarget (target : PathText) :
    (normalizeTarget target).length ≤ (trimText target).length := by
  have hweight : ∀ text : PathText, Splitting.weight (fun _ => 1) text = text.length := fun text => by
    rw [Splitting.weight, List.map_const', List.sum_replicate, smul_eq_mul, mul_one]
  have hjoin : ∀ text : PathText,
      (joinSegments ((text.splitOn '/').foldl collapse [])).length ≤ text.length := by
    intro text
    by_cases hempty : (text.splitOn '/').foldl collapse [] = []
    · rw [hempty]
      exact Nat.zero_le _
    · have hle := separatedWeight_foldl_collapse (fun _ => 1) (text.splitOn '/') []
      have hnames := Splitting.weight_intercalate (fun _ => 1) '/' hempty
      have htext := Splitting.weight_intercalate (fun _ => 1) '/' (List.splitOn_ne_nil '/' text)
      rw [List.intercalate_splitOn] at htext
      rw [hweight] at hnames htext
      have hnil : Splitting.separatedWeight (fun _ => 1) '/' ([] : List PathText) = 0 := rfl
      unfold joinSegments
      omega
  have hlength : (forwardSlashes (trimText target)).length = (trimText target).length := List.length_map ..
  rw [normalizeTarget_eq, ← hlength, namesOf, segmentsOf]
  generalize forwardSlashes (trimText target) = text
  split_ifs with hrooted
  · rcases text with _ | ⟨c, text⟩
    · cases hrooted
    · cases hrooted
      rw [← List.nil_append ('/' :: text), List.splitOn_append_cons_self, List.foldl_append,
        List.length_append]
      exact (Nat.add_comm 1 _).trans_le (Nat.succ_le_succ (hjoin text))
  · exact hjoin text

/-- What a target without a root is joined to begins with no separator. -/
theorem head?_joinSegments (h : ∀ name ∈ names, ProperSegment name) :
    (joinSegments names).head? ≠ some '/' := by
  rcases names with _ | ⟨name, names⟩
  · nofun
  · obtain ⟨hname, -⟩ := List.forall_mem_cons.1 h
    obtain ⟨c, rest, rfl⟩ := List.exists_cons_of_ne_nil hname.nonempty
    have hhead : (joinSegments ((c :: rest) :: names)).head? = some c := by
      rcases names with _ | ⟨_, _⟩ <;> rfl
    rw [hhead]
    rintro ⟨⟩
    exact hname.no_slash List.mem_cons_self

/-- A target that is not rooted has a spelling whose key is, and one whose key is not. -/
theorem exists_spellings (h : ¬Rooted target) :
    ∃ one two, SameTarget target one ∧ SameTarget target two
      ∧ normalizeTarget one ≠ normalizeTarget two := by
  refine ⟨' ' :: '/' :: '.' :: '.' :: '/' :: target, '.' :: '/' :: target,
    ⟨iff_of_false h fun hspace => absurd (Option.some.inj hspace) (by decide),
      .symm _ _ (.rel _ _ ⟨[], _, _, @Idle.back [' '] (by decide) (by decide), ?_, rfl⟩)⟩,
    ⟨iff_of_false h fun hdot => absurd (Option.some.inj hdot) (by decide),
      .symm _ _ (.rel _ _ ⟨[], _, _, .here, ?_, rfl⟩)⟩, fun heq => ?_⟩
  · show (' ' :: '/' :: '.' :: '.' :: '/' :: forwardSlashes target).splitOn '/' = _
    rw [show ' ' :: '/' :: '.' :: '.' :: '/' :: forwardSlashes target
      = [' '] ++ '/' :: (['.', '.'] ++ '/' :: forwardSlashes target) from rfl,
      List.splitOn_append_cons_self, List.splitOn_append_cons_self]
    rfl
  · show ('.' :: '/' :: forwardSlashes target).splitOn '/' = _
    rw [show '.' :: '/' :: forwardSlashes target = ['.'] ++ '/' :: forwardSlashes target from rfl,
      List.splitOn_append_cons_self]
    rfl
  · obtain ⟨one, hone⟩ := trimText_cons (c := '/') (by decide) ('.' :: '.' :: '/' :: target)
    obtain ⟨two, htwo⟩ := trimText_cons (c := '.') (by decide) ('/' :: target)
    have hblank : trimText (' ' :: '/' :: '.' :: '.' :: '/' :: target)
        = trimText ('/' :: '.' :: '.' :: '/' :: target) := by
      rw [trimText, List.dropWhile_cons_of_pos (by decide), trimText]
    have hfirst := congrArg List.head? heq
    rw [normalizeTarget_eq, normalizeTarget_eq, hblank, hone, htwo, if_pos (show (forwardSlashes ('/' :: one)).head? = some '/' from rfl),
      if_neg (show (forwardSlashes ('.' :: two)).head? ≠ some '/' from
        fun hdot => absurd (Option.some.inj hdot) (by decide))] at hfirst
    exact head?_joinSegments (proper_namesOf _) hfirst.symm

/-- **Exactly the unambiguous targets** are normalized to a form that stays, the same one in every
spelling of the target. -/
theorem conflictKey_canonical_iff (toLowerCase : PathText → PathText) (kind target : PathText) :
    ((∀ part, conflictKey toLowerCase kind target = keyFamily toLowerCase kind ++ ':' :: part →
        conflictKey toLowerCase kind part = conflictKey toLowerCase kind target)
      ∧ ∀ other, SameTarget target other →
        conflictKey toLowerCase kind other = conflictKey toLowerCase kind target)
      ↔ Unambiguous target := by
  have hkey : ∀ {one two : PathText},
      conflictKey toLowerCase kind one = conflictKey toLowerCase kind two
        ↔ normalizeTarget one = normalizeTarget two := fun {one two} => by
    rw [conflictKey, conflictKey, List.append_cancel_left_eq, List.cons_inj_right]
  constructor
  · rintro ⟨hstays, hspelling⟩
    have hrooted : Rooted target := by
      by_contra h
      obtain ⟨one, two, hone, htwo, hne⟩ := exists_spellings h
      exact hne ((hkey.1 (hspelling one hone)).trans (hkey.1 (hspelling two htwo)).symm)
    refine ⟨hrooted, fun _ hname c hc => Bool.eq_false_iff.2 fun hblank => ?_⟩
    rw [lastName_eq] at hname
    -- with a separator after it the target keeps the white space
    obtain ⟨first, rest, rfl, hfirst⟩ := hrooted.first
    have hsegments : segmentsOf (first :: rest ++ ['/']) = segmentsOf (first :: rest) ++ [[]] := by
      rw [segmentsOf, forwardSlashes, List.map_append]
      exact List.splitOn_append_cons_self _ _
    have hother : SameTarget (first :: rest) (first :: rest ++ ['/']) :=
      ⟨Iff.rfl, .symm _ _ (.rel _ _ ⟨segmentsOf (first :: rest), [[]], [], .empty, by
        rw [hsegments, List.append_nil], (List.append_nil _).symm⟩)⟩
    have htrim : trimText (first :: rest ++ ['/']) = first :: rest ++ ['/'] := by
      refine trimText_eq_self (fun d hd => ?_) fun d hd => ?_
      · cases hd
        exact blank_separator hfirst
      · rw [List.getLast?_concat] at hd
        cases hd
        decide
    have hkept : normalizeTarget (first :: rest ++ ['/']) = (locationOf (first :: rest)).text := by
      rw [normalizeTarget_eq, htrim, ← namesOf_eq hother]
      exact congrArg (· ++ _) (if_pos hrooted)
    have hsame : normalizeTarget (first :: rest) = (locationOf (first :: rest)).text :=
      (hkey.1 (hspelling _ hother)).symm.trans hkept
    have hagain := hkey.1 (hstays _ rfl)
    rw [hsame] at hagain
    -- normalizing once more cuts it off
    have hlength := length_normalizeTarget (locationOf (first :: rest)).text
    rw [hagain] at hlength
    refine absurd (length_trimText_lt ?_ hblank) (not_lt.2 hlength)
    show ('/' :: joinSegments (namesOf (first :: rest))).getLast? = some c
    rw [List.getLast?_cons, getLast?_joinSegments hname hc]
    rfl
  · intro h
    obtain ⟨hrooted, hnames⟩ := namesOf_text target
    have hself := h.normalizeTarget_eq h.1 rfl
    refine ⟨fun part hpart => hkey.2 ?_, fun other hother => hkey.2 ?_⟩
    · rw [conflictKey, List.append_cancel_left_eq, List.cons_inj_right, hself] at hpart
      rw [← hpart, h.normalizeTarget_eq hrooted hnames, hself]
    · rw [h.normalizeTarget_eq (hother.rooted.1 h.1) (namesOf_eq hother).symm, hself]

/-- The key of "a /" names "a ", whose own key names "a"; and both are spellings of one target. -/
theorem not_conflictKey_canonical :
    (¬∀ kind target part : PathText,
      conflictKey (List.map Char.toLower) kind target
        = keyFamily (List.map Char.toLower) kind ++ ':' :: part →
      conflictKey (List.map Char.toLower) kind part = conflictKey (List.map Char.toLower) kind target)
    ∧ ¬∀ kind target other : PathText, SameTarget target other →
      conflictKey (List.map Char.toLower) kind other
        = conflictKey (List.map Char.toLower) kind target := by
  refine ⟨fun h => ?_, fun h => ?_⟩
  · exact absurd (h "file".toList "a /".toList "a ".toList (by decide)) (by decide)
  · refine absurd (h "file".toList "a ".toList "a /".toList ⟨Iff.rfl, ?_⟩) (by decide)
    exact .symm _ _ (.rel _ _ ⟨["a ".toList], [[]], [], .empty, by decide, by decide⟩)

end Falryn.Orchestration
