import Amalgam.Lib.Run
import Mathlib.Logic.Function.Basic

/-!
# Leases that guard values

A register of expiring leases: under each key at most one token, until a deadline, and beside it the
values, which may expire too, that are written only while a lease is held. An operation names the
deadline it asks for or the value it leaves. `live now deadline` says whether what has that deadline
is still there.

* **`holds_unique`** — one token holds a key.
* **`holds_of_perform`** — a token comes to hold a key only by acquiring it while nobody does.
* **`perform_write`** — a write goes through exactly when its token holds its key.
* **`perform_stranger`** — renewals and releases of a token that does not hold leave everything.
* **`Implements.not_holds_of_exec`** — on a backend that is seen as a register, a lease that is not
  held stays so until it is acquired.
-/

namespace Lease

variable {Key Token Time Value : Type} [DecidableEq Key] [DecidableEq Token]

@[ext] structure Register (Key Token Time Value : Type) where
  clock : Time
  holder : Key → Option (Token × Time)
  value : Key → Option (Value × Option Time)

inductive Op (Key Token Time Value : Type) where
  | wait (now : Time)
  | acquire (key : Key) (token : Token) (deadline : Time)
  | renew (key : Key) (token : Token) (deadline : Time)
  | release (key : Key) (token : Token)
  | write (key : Key) (token : Token) (target : Key)
      (result : Option (Value × Option Time))
  | fail

inductive Outcome where
  | done
  | acquired
  | refused
  | renewed
  | lost
  | committed
  | leaseLost
  | failed
deriving DecidableEq

namespace Register

/-- The token owns the key, and its lease has not run out. -/
def Holds (s : Register Key Token Time Value) (key : Key) (token : Token) : Prop :=
  (s.holder key).map Prod.fst = some token

instance (s : Register Key Token Time Value) (key : Key) (token : Token) :
    Decidable (s.Holds key token) := inferInstanceAs (Decidable (_ = _))

/-- The value, if it is still there. -/
def fresh (live : Time → Time → Bool) (now : Time) (value : Option (Value × Option Time)) :
    Option (Value × Option Time) :=
  value.filter fun value => value.2.all (live now)

/-- A lease until the deadline, if it is not over already. -/
def grant (live : Time → Time → Bool) (s : Register Key Token Time Value) (key : Key)
    (token : Token) (deadline : Time) : Register Key Token Time Value :=
  let lease := (some (token, deadline)).filter fun lease => live s.clock lease.2
  { s with holder := Function.update s.holder key lease }

def perform (live : Time → Time → Bool) (s : Register Key Token Time Value) :
    Op Key Token Time Value → Outcome × Register Key Token Time Value
  | .wait now =>
    (.done, { s with
      clock := now
      holder := fun key => (s.holder key).filter fun lease => live now lease.2
      value := fun key => fresh live now (s.value key) })
  | .acquire key token deadline =>
    if (s.holder key).isSome then (.refused, s) else (.acquired, s.grant live key token deadline)
  | .renew key token deadline =>
    if s.Holds key token then (.renewed, s.grant live key token deadline) else (.lost, s)
  | .release key token =>
    if s.Holds key token then (.done, { s with holder := Function.update s.holder key none })
    else (.done, s)
  | .write key token target result =>
    if s.Holds key token then
      (.committed, { s with
        value := Function.update s.value target (fresh live s.clock result) })
    else (.leaseLost, s)
  | .fail => (.failed, s)

variable {live : Time → Time → Bool} {s : Register Key Token Time Value}

omit [DecidableEq Key] [DecidableEq Token] in
theorem holds_unique {key : Key} {token token' : Token} (h : s.Holds key token)
    (h' : s.Holds key token') : token = token' :=
  Option.some.inj (h.symm.trans h')

omit [DecidableEq Token] in
theorem holds_grant {key other : Key} {token owner : Token} {deadline : Time}
    (h : (s.grant live key token deadline).Holds other owner) :
    s.Holds other owner ∨ (other = key ∧ owner = token) := by
  unfold Holds grant at h
  dsimp only at h
  by_cases hother : other = key
  · subst hother
    rw [Function.update_self] at h
    obtain ⟨lease, hlease, howner⟩ := Option.map_eq_some_iff.mp h
    obtain ⟨hlease, -⟩ := Option.filter_eq_some_iff.mp hlease
    obtain rfl := Option.some.inj hlease
    exact .inr ⟨rfl, howner.symm⟩
  · rw [Function.update_of_ne hother] at h
    exact .inl h

/-- **Nobody takes a key that is held.** -/
theorem holds_of_perform {op : Op Key Token Time Value} {key : Key} {token : Token}
    (h : (s.perform live op).2.Holds key token) :
    s.Holds key token ∨
      ((∃ deadline, op = .acquire key token deadline) ∧ (s.perform live op).1 = .acquired ∧
        s.holder key = none) := by
  cases op with
  | wait now =>
    obtain ⟨lease, hlease, howner⟩ := Option.map_eq_some_iff.mp h
    obtain ⟨hheld, -⟩ := Option.filter_eq_some_iff.mp hlease
    exact .inl (Option.map_eq_some_iff.mpr ⟨lease, hheld, howner⟩)
  | acquire asked party deadline =>
    dsimp only [perform] at h ⊢
    split at h
    · exact .inl h
    · rename_i hfree
      rcases holds_grant h with hold | ⟨rfl, rfl⟩
      · exact .inl hold
      · rw [if_neg hfree]
        exact .inr ⟨⟨deadline, rfl⟩, rfl, Option.not_isSome_iff_eq_none.mp hfree⟩
  | renew asked party deadline =>
    left
    dsimp only [perform] at h
    split at h
    · rename_i hheld
      -- The only token that a renewal grants to is the one that holds.
      rcases holds_grant h with hold | ⟨rfl, rfl⟩
      · exact hold
      · exact hheld
    · exact h
  | release asked party =>
    left
    dsimp only [perform] at h
    split at h
    · unfold Holds at h ⊢
      dsimp only at h
      by_cases hkey : key = asked
      · subst hkey
        rw [Function.update_self] at h
        cases h
      · rw [Function.update_of_ne hkey] at h
        exact h
    · exact h
  | write asked party target result =>
    left
    dsimp only [perform] at h
    split at h
    · exact h
    · exact h
  | fail => exact .inl h

variable (live s) in
/-- **A write is fenced by its lease.** -/
theorem perform_write (key : Key) (token : Token) (target : Key)
    (result : Option (Value × Option Time)) :
    ((s.perform live (.write key token target result)).1 = .committed ↔ s.Holds key token) ∧
      (s.Holds key token → (s.perform live (.write key token target result)).2 =
        { s with value := Function.update s.value target (fresh live s.clock result) }) ∧
      (¬ s.Holds key token →
        s.perform live (.write key token target result) = (.leaseLost, s)) := by
  dsimp only [perform]
  by_cases hheld : s.Holds key token
  · rw [if_pos hheld]
    exact ⟨iff_of_true rfl hheld, fun _ => rfl, fun hnot => absurd hheld hnot⟩
  · rw [if_neg hheld]
    exact ⟨iff_of_false Outcome.noConfusion hheld, fun h => absurd h hheld, fun _ => rfl⟩

/-- **A stranger's renewal or release leaves the register.** -/
theorem perform_stranger {key : Key} {token : Token} (h : ¬ s.Holds key token) (deadline : Time) :
    s.perform live (.renew key token deadline) = (.lost, s) ∧
      s.perform live (.release key token) = (.done, s) :=
  ⟨if_neg h, if_neg h⟩

end Register

/-! ## Backends -/

section Backend

variable {S A : Type} {live : Time → Time → Bool} {view : S → Register Key Token Time Value}
  {op : S → A → Op Key Token Time Value} {next : S → A → Option (Outcome × S)} {good : S → Prop}

/-- Good states are seen as registers, and every step from one as an operation on its register. -/
structure Implements (live : Time → Time → Bool) (view : S → Register Key Token Time Value)
    (op : S → A → Op Key Token Time Value) (next : S → A → Option (Outcome × S))
    (good : S → Prop) : Prop where
  refines : ∀ s a outcome t, good s → next s a = some (outcome, t) →
    (view s).perform live (op s a) = (outcome, view t)
  keeps : ∀ s a outcome t, good s → next s a = some (outcome, t) → good t

/-- A step without its outcome. -/
def step (next : S → A → Option (Outcome × S)) (s : S) (a : A) : Option S :=
  (next s a).map Prod.snd

theorem Implements.good_of_exec (h : Implements live view op next good) {s t : S} {as : List A}
    (hs : good s) (hexec : Run.exec (step next) s as = some t) : good t := by
  refine Run.exec_invariant (I := good) (fun s a t hs hstep => ?_) hs hexec
  obtain ⟨⟨outcome, t⟩, hnext, rfl⟩ := Option.map_eq_some_iff.mp hstep
  exact h.keeps s a outcome t hs hnext

/-- **A lease that is over is not revived.** Only an acquisition makes its token hold again. -/
theorem Implements.not_holds_of_exec (h : Implements live view op next good) {s t : S}
    {as : List A} {key : Key} {token : Token} (hs : good s) (hnot : ¬ (view s).Holds key token)
    (has : Run.Along (step next) (fun s a => ∀ deadline, op s a ≠ .acquire key token deadline) s as)
    (hexec : Run.exec (step next) s as = some t) : ¬ (view t).Holds key token := by
  refine (Run.exec_invariant_along (I := fun s => good s ∧ ¬ (view s).Holds key token) ?_
    ⟨hs, hnot⟩ has hexec).2
  rintro s a t ⟨hs, hnot⟩ hother hstep
  obtain ⟨⟨outcome, t⟩, hnext, rfl⟩ := Option.map_eq_some_iff.mp hstep
  refine ⟨h.keeps s a outcome t hs hnext, fun hgained => ?_⟩
  have hview : ((view s).perform live (op s a)).2 = view t := by
    rw [h.refines s a outcome t hs hnext]
  rcases Register.holds_of_perform (hview.symm ▸ hgained) with hold | ⟨⟨deadline, hacquire⟩, -⟩
  · exact hnot hold
  · exact hother deadline hacquire

end Backend

end Lease
