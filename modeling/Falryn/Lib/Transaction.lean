import Falryn.Foundation.Result

/-!
# Transactions

A transaction reads and writes a state.  It ends with an answer or with a refusal, and both commit what
it wrote before; or it throws, and then the state is the one it began in.  The rules of this file say
what holds where a transaction ends: one for each way of writing a transaction, and one for loops.
-/

/-- A transaction over the states `σ` that may throw a `τ` or refuse with an `ε`. -/
abbrev Transaction (σ τ ε : Type) := ExceptT ε (StateT σ (Except τ))

namespace Transaction

variable {σ τ ε α β : Type}

/-- What a transaction answers from a state and the state it leaves, unless it throws. -/
def exec (p : Transaction σ τ ε α) (s : σ) : Except τ (Except ε α × σ) := p.run.run s

/-- The state after a transaction: what was written is rolled back if it throws. -/
def commit (p : Transaction σ τ ε α) (s : σ) : σ :=
  match exec p s with
  | .ok (_, s') => s'
  | .error _ => s

/-- Reads the state. -/
def query (f : σ → Except ε α) : Transaction σ τ ε α := ExceptT.mk fun s => .ok (f s, s)

/-- A check that does not read the state. -/
def check (x : Except ε α) : Transaction σ τ ε α := query fun _ => x

/-- Ends with a refusal. -/
def refuse (e : ε) : Transaction σ τ ε α := query fun _ => .error e

/-- Writes the state. -/
def write (f : σ → σ) : Transaction σ τ ε Unit := ExceptT.mk fun s => .ok (.ok (), f s)

/-- Throws. -/
def abort (t : τ) : Transaction σ τ ε α := ExceptT.mk fun _ => .error t

/-- Goes on with what a transaction answered or refused. -/
def attempt (p : Transaction σ τ ε α) : Transaction σ τ ε (Except ε α) :=
  ExceptT.mk fun s => (exec p s).map fun end_ => (.ok end_.1, end_.2)

/-- Where a transaction ends, `Q` holds of what it answers and of the state; if it throws, `E` holds
of what it throws. -/
def Ends (E : τ → Prop) (Q : Except ε α → σ → Prop) (p : Transaction σ τ ε α) (s : σ) : Prop :=
  match exec p s with
  | .ok (r, s') => Q r s'
  | .error t => E t

section
variable {E E' : τ → Prop} {Q Q' : Except ε α → σ → Prop} {R : Except ε β → σ → Prop} {s : σ}

variable {p : Transaction σ τ ε α} {t : τ} {P : σ → Prop} {a : α} {f : σ → Except ε α}
  {k : α → Transaction σ τ ε β}

theorem ends_iff :
    Ends E Q p s ↔ (∀ r s', exec p s = .ok (r, s') → Q r s') ∧ ∀ t, exec p s = .error t → E t := by
  unfold Ends
  rcases exec p s with t | ⟨r, s'⟩
  · simp
  · simp

theorem Ends.ok (h : Ends E Q p s) {r : Except ε α} {s' : σ}
    (hexec : exec p s = .ok (r, s')) : Q r s' := (ends_iff.1 h).1 r s' hexec

theorem Ends.thrown (h : Ends E Q p s)
    (hexec : exec p s = .error t) : E t := (ends_iff.1 h).2 t hexec

/-- What holds where a transaction ends may be weakened. -/
theorem Ends.mono (h : Ends E Q p s) (hE : ∀ t, E t → E' t)
    (hQ : ∀ r s', Q r s' → Q' r s') : Ends E' Q' p s :=
  ends_iff.2 ⟨fun r s' hexec => hQ r s' (h.ok hexec), fun t hexec => hE t (h.thrown hexec)⟩

theorem Ends.weaken (h : Ends E Q p s)
    (hQ : ∀ r s', Q r s' → Q' r s') : Ends E Q' p s := h.mono (fun _ ht => ht) hQ

/-- A transaction that keeps a property of the state and never throws something else commits to a
state with the property. -/
theorem Ends.commit (h : Ends E (fun _ s' => P s') p s)
    (hs : P s) : P (Transaction.commit p s) := by
  unfold Transaction.commit
  rcases hexec : exec p s with t | ⟨r, s'⟩
  · exact hs
  · exact h.ok hexec

/-- A transaction that never throws commits to a state in which `Q` holds. -/
theorem Ends.commits (h : Ends (fun _ => False) (fun _ s' => P s') p s) :
    (∀ t, exec p s ≠ .error t) ∧ P (Transaction.commit p s) := by
  refine ⟨fun t hexec => h.thrown hexec, ?_⟩
  unfold Transaction.commit
  rcases hexec : exec p s with t | ⟨r, s'⟩
  · exact (h.thrown hexec).elim
  · exact h.ok hexec

/-- A transaction that never ends throws. -/
theorem Ends.throws (h : Ends E (fun _ _ => False) p s) : ∃ t, exec p s = .error t := by
  rcases hexec : exec p s with t | ⟨r, s'⟩
  · exact ⟨t, rfl⟩
  · exact (h.ok hexec).elim

/-! ## One rule for each way of writing a transaction -/

theorem ends_pure : Ends E Q (pure a : Transaction σ τ ε α) s ↔ Q (.ok a) s := Iff.rfl

theorem ends_query : Ends E Q (query f) s ↔ Q (f s) s := Iff.rfl

theorem ends_refuse {e : ε} : Ends E Q (refuse e) s ↔ Q (.error e) s := Iff.rfl

theorem ends_abort : Ends E Q (abort t) s ↔ E t := Iff.rfl

theorem ends_write {f : σ → σ} {Q : Except ε Unit → σ → Prop} :
    Ends E Q (write f) s ↔ Q (.ok ()) (f s) := Iff.rfl

theorem exec_bind (p : Transaction σ τ ε α) (f : α → Transaction σ τ ε β) (s : σ) :
    exec (p >>= f) s =
      match exec p s with
      | .ok (.ok a, s') => exec (f a) s'
      | .ok (.error e, s') => .ok (.error e, s')
      | .error t => .error t := by
  show (do
    let end_ ← exec p s
    (ExceptT.bindCont f end_.1).run end_.2 : Except τ (Except ε β × σ)) = _
  rcases exec p s with t | ⟨_ | _, _⟩ <;> rfl

/-- One transaction after the other: the second begins where the first ends, unless that refuses. -/
theorem ends_bind {f : α → Transaction σ τ ε β} : Ends E R (p >>= f) s ↔
      Ends E (fun r s' =>
        match r with
        | .ok a => Ends E R (f a) s'
        | .error e => R (.error e) s') p s := by
  unfold Ends
  rw [exec_bind]
  rcases exec p s with t | ⟨_ | _, _⟩ <;> exact Iff.rfl

theorem Ends.bind {f : α → Transaction σ τ ε β} (h : Ends E Q p s)
    (herror : ∀ e s', Q (.error e) s' → R (.error e) s')
    (hok : ∀ a s', Q (.ok a) s' → Ends E R (f a) s') : Ends E R (p >>= f) s := by
  refine ends_bind.2 (h.weaken fun r s' hQ => ?_)
  rcases r with e | a
  · exact herror e s' hQ
  · exact hok a s' hQ

theorem ends_query_bind
    (herror : ∀ e, f s = .error e → R (.error e) s) (hok : ∀ a, f s = .ok a → Ends E R (k a) s) :
    Ends E R (query f >>= k) s := by
  refine ends_bind.2 (ends_query.2 ?_)
  rcases h : f s with e | a
  · exact herror e h
  · exact hok a h

theorem ends_check_bind {x : Except ε α}
    (herror : ∀ e, x = .error e → R (.error e) s) (hok : ∀ a, x = .ok a → Ends E R (k a) s) :
    Ends E R (check x >>= k) s := ends_query_bind herror hok

theorem ends_write_bind {f : σ → σ} {k : Unit → Transaction σ τ ε β} :
    Ends E R (write f >>= k) s ↔ Ends E R (k ()) (f s) := ends_bind

theorem exec_attempt (p : Transaction σ τ ε α) (s : σ) :
    exec (attempt p) s =
      match exec p s with
      | .ok (r, s') => .ok (.ok r, s')
      | .error t => .error t := by
  show ((exec p s).map fun end_ => ((.ok end_.1 : Except ε (Except ε α)), end_.2)) = _
  rcases exec p s with t | ⟨r, s'⟩ <;> rfl

theorem ends_attempt_bind {k : Except ε α → Transaction σ τ ε β} :
    Ends E R (attempt p >>= k) s ↔ Ends E (fun r s' => Ends E R (k r) s') p s := by
  rw [ends_bind]
  unfold Ends
  rw [exec_attempt]
  rcases exec p s with t | ⟨r, s'⟩ <;> exact Iff.rfl

/-- **The rule for loops.**  `I rest` holds when the items `rest` are still to come. -/
theorem ends_forM {l : List α} {body : α → Transaction σ τ ε PUnit} {I : List α → σ → Prop}
    {R : Except ε PUnit → σ → Prop} (hstart : I l s)
    (hbody : ∀ a rest s, a :: rest <:+ l → I (a :: rest) s →
      Ends E (fun r s' =>
        match r with
        | .ok _ => I rest s'
        | .error e => R (.error e) s') (body a) s)
    (hend : ∀ s, I [] s → R (.ok ⟨⟩) s) : Ends E R (l.forM body) s := by
  induction l generalizing s with
  | nil => exact hend s hstart
  | cons a l ih =>
    refine ends_bind.2 ((hbody a l s (List.suffix_refl _) hstart).weaken fun r s' h => ?_)
    rcases r with e | _
    · exact h
    · exact ih h fun b rest s hsuffix => hbody b rest s (hsuffix.trans (List.suffix_cons a l))

/-- The rule for loops that carry a value. -/
theorem ends_foldlM {γ : Type} {l : List γ} {body : α → γ → Transaction σ τ ε α}
    {I : List γ → α → σ → Prop} (hstart : I l a s)
    (hbody : ∀ c rest a s, I (c :: rest) a s →
      Ends E (fun r s' =>
        match r with
        | .ok a' => I rest a' s'
        | .error e => Q (.error e) s') (body a c) s)
    (hend : ∀ a s, I [] a s → Q (.ok a) s) : Ends E Q (l.foldlM body a) s := by
  induction l generalizing a s with
  | nil => exact hend a s hstart
  | cons c l ih =>
    refine ends_bind.2 ((hbody c l a s hstart).weaken fun r s' h => ?_)
    rcases r with e | a'
    · exact h
    · exact ih h

end

end Transaction
