import Falryn.Orchestration.MailboxRefinement

/-!
# One receipt after another

What moves do to one story.  A move leaves a story as it is or lets it go on with one receipt, and
`Revised` says which receipts these are.  `Reaches.told` is the rule for a property of stories: it holds
of every first story, and every receipt a story goes on with keeps it.
-/

namespace Falryn.Orchestration.Mailbox

/-! ## The receipts a story goes on with -/

/-- A receipt, and what its event records, that a story may go on with in a move. -/
inductive Revised (m : Move) (key : MessageKey) (story : Story) : MailboxReceipt → Fact → Prop where
  | change {change : Change} (hmove : m = .change key change)
      (hfits : change.Fits story.receipt) (hroom : story.receipt.revision < change.room) :
      Revised m key story (change.apply story.receipt) change.fact
  | admitted {policy : PeerPolicy} {answers : Option MessageKey}
      (hmove : m = .admitted key policy answers) (hpending : story.receipt.delivery.Pending) :
      Revised m key story (admittedReceipt story.receipt policy) .transition
  | replied (reply : MessageKey) (hopen : ¬ story.receipt.handling.Closed) :
      Revised m key story ((repliedPatch story.receipt reply).apply story.receipt) .transition
  | queued {identity : PeerIdentity} (hmove : m = .wentOffline identity)
      (hqueues : story.Queues identity) :
      Revised m key story (queuedReceipt story.receipt) .transition
  | ended {identity : PeerIdentity} {state : EndpointState} (hends : story.EndsWith identity state) :
      Revised m key story
        (endedReceipt story.receipt state (story.receipt.recipient = identity)) .transition

/-- Every receipt that a story goes on with follows the one it has. -/
theorem Revised.follows {m : Move} {key : MessageKey} {story : Story} {receipt : MailboxReceipt}
    {fact : Fact} (h : Revised m key story receipt fact) : Follows story.receipt receipt := by
  cases h with
  | change hmove hfits => exact Change.follows hfits
  | admitted hmove hpending =>
    exact ⟨rfl, rfl, rfl, rfl, rfl, rfl, fun _ => ⟨rfl, rfl⟩,
      fun hexp => absurd hexp hpending.ne_expired, fun _ => rfl⟩
  | replied _ hopen =>
    exact ReceiptPatch.follows (fun h => absurd h hopen) (fun _ => .inl rfl)
      fun h => .inr (congrArg some (Wait.settle_of_ne h))
  | queued hmove hqueues =>
    exact ⟨rfl, rfl, rfl, rfl, rfl, rfl, fun _ => ⟨rfl, rfl⟩,
      fun hexp => absurd (hqueues.2.symm.trans hexp) (nomatch ·), fun _ => rfl⟩
  | ended hends => exact endedReceipt_follows _ _ hends.2.2.2

/-- A story that stays as it is, or goes on with one receipt. -/
inductive Tells (m : Move) (key : MessageKey) (old : Story) : Story → Prop where
  | same : Tells m key old old
  | revised {receipt : MailboxReceipt} {fact : Fact} (accepted : Bool) (payload : Option PeerMessage)
      (h : Revised m key old receipt fact) :
      Tells m key old { old.after receipt fact with accepted := accepted, payload := payload }

namespace Post

variable {p : Post} {m : Move} {key : MessageKey} {old : Story}

/-- What an answer does to one story. -/
theorem answer_stories (p : Post) (answers : Option MessageKey) (reply key : MessageKey) :
    (p.answer answers reply).stories key =
      if answers = some key then (p.stories key).map fun story => story.answered reply
      else p.stories key := by
  rcases answers with _ | request
  · rfl
  · rcases hrequest : p.stories request with _ | story
    · have hsame : p.answer (some request) reply = p := by
        unfold answer
        rw [Option.bind_some, hrequest]
        rfl
      rw [hsame]
      by_cases h : request = key
      · subst h
        rw [if_pos rfl, hrequest]
        rfl
      · rw [if_neg fun heq => h (Option.some.inj heq)]
    · rw [answer_some hrequest]
      by_cases h : request = key
      · subst h
        rw [if_pos rfl, put_self, hrequest]
        rfl
      · rw [if_neg fun heq => h (Option.some.inj heq), put_ne _ _ (Ne.symm h)]

/-- A message that is told and may be answered is not a reply. -/
theorem Answers.ne (hp : p.Sound) {message : PeerMessage} {request : MessageKey}
    (h : p.Answers message request) {story : Story} (hstory : p.stories request = some story) :
    ¬ story.receipt.handling.Closed ∧ story.receipt.digest.kind = .request := by
  obtain ⟨correlation, -, -, told, htold, hkind, hopen⟩ := h
  rw [hstory] at htold
  cases htold
  obtain ⟨payload, hpayload, hkind⟩ := Option.map_eq_some_iff.1 hkind
  obtain ⟨-, rfl⟩ := (hp.stories hstory).not_tombstoned hpayload
  exact ⟨hopen, hkind⟩

/-- An answer lets an open story go on. -/
theorem tells_answer {q : Post} {answers : Option MessageKey} (reply : MessageKey)
    (hold : q.stories key = some old)
    (hopen : answers = some key → ¬ old.receipt.handling.Closed) :
    ∃ new, (q.answer answers reply).stories key = some new ∧ Tells m key old new := by
  rw [answer_stories, hold]
  by_cases h : answers = some key
  · rw [if_pos h]
    exact ⟨_, rfl, .revised _ _ (.replied reply (hopen h))⟩
  · rw [if_neg h]
    exact ⟨old, rfl, .same⟩

/-- **A move lets each story go on with one receipt at most.** -/
theorem Sound.tells (hp : p.Sound) (hlegal : p.Legal m) (hold : p.stories key = some old) :
    ∃ new, (p.after m).stories key = some new ∧ Tells m key old new := by
  have hopen {message : PeerMessage} {answers : Option MessageKey}
      (hanswers : p.AnswersAll message answers) (h : answers = some key) :
      ¬ old.receipt.handling.Closed ∧ old.receipt.digest.kind = .request := by
    rw [h] at hanswers
    exact Answers.ne hp hanswers hold
  cases m with
  | post message receiving policy answers =>
    obtain ⟨hnone, -, -, hanswers, -⟩ := hlegal
    have hne : key ≠ messageKey message := by
      rintro rfl
      cases hnone.symm.trans hold
    refine tells_answer _ ((put_ne _ _ hne).trans hold) fun h => ?_
    cases receiving with
    | true => exact (hopen hanswers h).1
    | false => cases hanswers.symm.trans h
  | admitted other policy answers =>
    obtain ⟨story, hstory, hpending, -, -, hanswers⟩ := hlegal
    rw [after_admitted hstory]
    by_cases hkey : key = other
    · subst hkey
      rw [hold] at hstory
      cases hstory
      -- A reply that is admitted does not answer itself.
      have hne : answers ≠ some key := by
        intro h
        have hkind := (hopen hanswers h).2
        rw [h] at hanswers
        obtain ⟨correlation, hcorrelation, -⟩ := hanswers
        have hnone := (hp.stories hold).kind.2 (hkind ▸ (fun h => by cases h))
        cases hcorrelation.symm.trans hnone
      rw [answer_stories, if_neg hne, put_self]
      exact ⟨_, rfl, .revised _ _ (.admitted rfl hpending)⟩
    · exact tells_answer _ ((put_ne _ _ hkey).trans hold) fun h => (hopen hanswers h).1
  | change other change =>
    obtain ⟨story, hstory, hroom, hfits⟩ := hlegal
    rw [after_change hstory]
    by_cases hkey : key = other
    · subst hkey
      rw [hold] at hstory
      cases hstory
      exact ⟨_, put_self .., .revised _ _ (.change rfl hfits hroom)⟩
    · exact ⟨old, (put_ne _ _ hkey).trans hold, .same⟩
  | enrolled identity state => exact ⟨old, hold, .same⟩
  | wentOffline identity =>
    refine ⟨old.queued identity, by show Option.map _ _ = _; rw [hold]; rfl, ?_⟩
    unfold Story.queued
    split_ifs with hqueues
    · exact .revised _ _ (.queued rfl hqueues)
    · exact .same
  | ended identity state =>
    refine ⟨old.ended identity state, by show Option.map _ _ = _; rw [hold]; rfl, ?_⟩
    unfold Story.ended
    split_ifs with hends
    · exact .revised _ _ (.ended hends)
    · exact .same

/-- A story that begins in a move is the first one of its message. -/
theorem begins (hlegal : p.Legal m) (hnone : p.stories key = none) {new : Story}
    (hnew : (p.after m).stories key = some new) :
    ∃ message receiving policy answers, m = .post message receiving policy answers
      ∧ key = messageKey message ∧ new = firstStory message receiving policy := by
  have hnotold {q : Post} {answers : Option MessageKey} {reply : MessageKey}
      (hq : q.stories key = none) : (q.answer answers reply).stories key = none := by
    rw [answer_stories, hq]
    split_ifs <;> rfl
  cases m with
  | post message receiving policy answers =>
    by_cases hkey : key = messageKey message
    · subst hkey
      refine ⟨message, receiving, policy, answers, rfl, rfl, ?_⟩
      have hne : answers ≠ some (messageKey message) := by
        rintro rfl
        obtain ⟨-, -, -, hanswers, -⟩ := hlegal
        cases receiving with
        | true =>
          obtain ⟨_, -, -, story, hstory, -⟩ := hanswers
          cases hnone.symm.trans hstory
        | false => cases hanswers
      rw [show (p.after (.post message receiving policy answers)).stories (messageKey message)
        = ((p.put (messageKey message) (firstStory message receiving policy)).answer answers
          (messageKey message)).stories (messageKey message) from rfl, answer_stories, if_neg hne,
        put_self] at hnew
      exact (Option.some.inj hnew).symm
    · cases (hnotold ((put_ne _ _ hkey).trans hnone)).symm.trans hnew
  | admitted other policy answers =>
    obtain ⟨story, hstory, -⟩ := hlegal
    have hkey : key ≠ other := by
      rintro rfl
      cases hnone.symm.trans hstory
    rw [after_admitted hstory] at hnew
    cases (hnotold ((put_ne _ _ hkey).trans hnone)).symm.trans hnew
  | change other change =>
    obtain ⟨story, hstory, -⟩ := hlegal
    have hkey : key ≠ other := by
      rintro rfl
      cases hnone.symm.trans hstory
    rw [after_change hstory, put_ne _ _ hkey, hnone] at hnew
    cases hnew
  | enrolled identity state => cases hnone.symm.trans hnew
  | wentOffline identity =>
    rw [show (p.after (.wentOffline identity)).stories key
      = (p.stories key).map fun story => story.queued identity from rfl, hnone] at hnew
    cases hnew
  | ended identity state =>
    rw [show (p.after (.ended identity state)).stories key
      = (p.stories key).map fun story => story.ended identity state from rfl, hnone] at hnew
    cases hnew

end Post

/-! ## Runs of moves -/

namespace Reaches

variable {B : Post → Move → Prop} {p q : Post}

/-- **The rule for a property of stories.**  What holds of every first story, and what every receipt
that a story goes on with in a move of the kind keeps, holds of every story. -/
theorem told {I : MessageKey → Story → Prop} (h : Reaches B p q) (hp : p.Sound)
    (hfirst : ∀ message receiving policy, I (messageKey message) (firstStory message receiving policy))
    (hstep : ∀ {p m key old receipt fact} (accepted payload), p.Sound → B p m →
      p.stories key = some old → I key old → Revised m key old receipt fact → receipt.Coherent →
        I key { old.after receipt fact with accepted := accepted, payload := payload })
    (hI : ∀ {key story}, p.stories key = some story → I key story) :
    ∀ {key story}, q.stories key = some story → I key story := by
  obtain ⟨moves, hrun, halong⟩ := h
  have hboth : q.Sound ∧ ∀ {key story}, q.stories key = some story → I key story := by
    refine StateMachine.run_along_preserves (I := fun q => q.Sound
      ∧ ∀ {key story}, q.stories key = some story → I key story)
      (fun p m _ hI hB hmove => ⟨hI.1.move hmove, fun {key new} hnew => ?_⟩) ⟨hp, hI⟩ halong hrun
    obtain ⟨hlegal, rfl⟩ := Post.move_eq_some.1 hmove
    rcases hold : p.stories key with _ | old
    · obtain ⟨message, receiving, policy, _, _, rfl, rfl⟩ := Post.begins hlegal hold hnew
      exact hfirst message receiving policy
    · obtain ⟨new', hnew', htells⟩ := hI.1.tells hlegal hold
      rw [hnew] at hnew'
      cases hnew'
      cases htells with
      | same => exact hI.2 hold
      | revised accepted payload hrevised =>
        exact hstep accepted payload hI.1 hB hold (hI.2 hold) hrevised
          ((hI.1.move hmove).stories hnew).coherent
  exact fun {_ _} h => hboth.2 h

variable {key : MessageKey} {old : Story}

/-- **The rule for one story that is there.**  What every receipt it goes on with keeps, it keeps. -/
theorem kept {I : Story → Prop} (h : Reaches B p q) (hp : p.Sound)
    (hold : p.stories key = some old) (hI : I old)
    (hstep : ∀ {p m story receipt fact} (accepted payload), p.Sound → B p m →
      p.stories key = some story → I story → Revised m key story receipt fact →
        I { story.after receipt fact with accepted := accepted, payload := payload }) :
    ∃ new, q.stories key = some new ∧ I new := by
  obtain ⟨moves, hrun, halong⟩ := h
  have hboth : q.Sound ∧ ∃ new, q.stories key = some new ∧ I new := by
    refine StateMachine.run_along_preserves (I := fun q => q.Sound
      ∧ ∃ new, q.stories key = some new ∧ I new) (fun p m _ hI hB hmove => ⟨hI.1.move hmove, ?_⟩)
      ⟨hp, old, hold, hI⟩ halong hrun
    obtain ⟨hlegal, rfl⟩ := Post.move_eq_some.1 hmove
    obtain ⟨story, hstory, hkept⟩ := hI.2
    obtain ⟨new, hnew, htells⟩ := hI.1.tells hlegal hstory
    refine ⟨new, hnew, ?_⟩
    cases htells with
    | same => exact hkept
    | revised accepted payload hrevised => exact hstep accepted payload hI.1 hB hstory hkept hrevised
  exact hboth.2

/-- The events of a message stay. -/
theorem log_prefix (h : Reaches B p q) (hp : p.Sound) (hold : p.stories key = some old) :
    ∃ new, q.stories key = some new ∧ old.log <+: new.log :=
  h.kept (I := fun story => old.log <+: story.log) hp hold List.prefix_rfl
    fun _ _ _ _ _ hlog _ => hlog.trans (List.prefix_append ..)

/-- **The rule for a relation between one receipt and the next.** -/
theorem chained {R : MailboxReceipt → MailboxReceipt → Prop} (h : Reaches B p q) (hp : p.Sound)
    (hstep : ∀ {p m key old receipt fact}, p.Sound → B p m → p.stories key = some old →
      Revised m key old receipt fact → R old.receipt receipt)
    (hchain : ∀ {key story}, p.stories key = some story →
      story.log.IsChain fun a b => R a.receipt b.receipt) {story : Story}
    (hstory : q.stories key = some story) :
    story.log.IsChain fun a b => R a.receipt b.receipt :=
  h.told (I := fun _ story => story.log.IsChain fun a b => R a.receipt b.receipt) hp
    (fun _ _ _ => List.isChain_singleton _)
    (fun _ _ hp hB hold hchain hrevised _ =>
      chain_concat hchain (hp.stories hold).current (hstep hp hB hold hrevised))
    hchain hstory

end Reaches

/-- What was told holds of the events of every message, also of one that is not there. -/
theorem MailboxState.Good.history {s : MailboxState} (h : s.Good) {P : List MailboxEvent → Prop}
    (hnil : P []) (hall : ∀ key story, s.story key = some story → P story.log) (key : MessageKey) :
    P (s.history key) := by
  rcases hrow : s.messages.get key with _ | row
  · rw [(h.orderly key hrow).1]
    exact hnil
  · exact hall key _ (MailboxState.story_eq_some.2 ⟨row, hrow, rfl⟩)

/-! ## A mailbox of two peers -/

/-- Ports that accept everything. -/
def laxPorts : MailboxPorts :=
  ⟨fun _ => true, fun _ => true, fun _ => 1, fun _ => 1, fun _ => true, fun _ => 1⟩

def workScope : PeerScope := ⟨"workspace", "project", "user", "environment", "trust"⟩

def alice : PeerIdentity := ⟨"session", "alice", 1⟩

def bob : PeerIdentity := ⟨"session", "bob", 1⟩

/-- The lease a peer gets when it registers. -/
def leaseOf (identity : PeerIdentity) : PeerLease :=
  ⟨identity, "process", "0123456789abcdef0123456789abcdef"⟩

/-- The registration of a peer. -/
def registrationOf (identity : PeerIdentity) : PeerRegistration :=
  ⟨⟨identity, workScope, "label", .idle, "process", 0⟩, "key", "address", (leaseOf identity).fence⟩

/-- A message from the one to the other. -/
def aliceToBob (text : String) : PeerMessage :=
  ⟨"message", alice, bob, workScope, 1, 0, 1000, .message, none, text, [], .normal⟩

/-- Both peers register, and the other lets the one write. -/
def introduced : List Operation :=
  [.register (registrationOf alice) 0, .register (registrationOf bob) 0,
    .policy (leaseOf bob) alice ⟨.allow, false, 64⟩ 0]

/-- The one proposes a message to the other. -/
def proposed : List Operation :=
  introduced ++ [.propose (leaseOf alice) (aliceToBob "text") 0 fun _ => true]

end Falryn.Orchestration.Mailbox
