import Mathlib.Data.List.Basic

/-!
# Computations that leave a trace

A computation that may fail and cannot take back what it did: its events, in order, and its
result. What comes after a failure does not happen; what came before stays in the trace.

* **`mem_events_bind`** — an event of a sequence is one of its first part, or one of its second
  part where the first succeeded.
-/

namespace Amalgam

structure Traced (event error α : Type) where
  events : List event
  result : Except error α

namespace Traced

variable {event error α β : Type}

def pure (a : α) : Traced event error α := ⟨[], .ok a⟩

def bind (m : Traced event error α) (f : α → Traced event error β) : Traced event error β :=
  match m.result with
  | .ok a => ⟨m.events ++ (f a).events, (f a).result⟩
  | .error e => ⟨m.events, .error e⟩

instance : Monad (Traced event error) where
  pure := pure
  bind := bind

def emit (e : event) : Traced event error Unit := ⟨[e], .ok ()⟩

def emitAll (es : List event) : Traced event error Unit := ⟨es, .ok ()⟩

def raise (e : error) : Traced event error α := ⟨[], .error e⟩

/-- A step whose outcome is given and that leaves nothing. -/
def lift (result : Except error α) : Traced event error α := ⟨[], result⟩

section Simp

variable (m : Traced event error α) (f : α → Traced event error β) (a : α) (e : event)
  (es : List event) (failure : error) (r : Except error α)

@[simp] theorem events_pure : (Pure.pure a : Traced event error α).events = [] := rfl

@[simp] theorem result_pure : (Pure.pure a : Traced event error α).result = .ok a := rfl

@[simp] theorem events_emit : (emit e : Traced event error Unit).events = [e] := rfl

@[simp] theorem result_emit : (emit e : Traced event error Unit).result = .ok () := rfl

@[simp] theorem events_emitAll : (emitAll es : Traced event error Unit).events = es := rfl

@[simp] theorem result_emitAll : (emitAll es : Traced event error Unit).result = .ok () := rfl

@[simp] theorem events_raise : (raise failure : Traced event error α).events = [] := rfl

@[simp] theorem result_raise : (raise failure : Traced event error α).result = .error failure := rfl

@[simp] theorem result_lift : (lift r : Traced event error α).result = r := rfl

end Simp

section Bind

variable {m : Traced event error α} {f : α → Traced event error β} {a : α} {failure : error}

theorem events_bind_of_ok (h : m.result = .ok a) :
    (m >>= f).events = m.events ++ (f a).events := by
  show (m.bind f).events = _
  rw [bind, h]

theorem result_bind_of_ok (h : m.result = .ok a) : (m >>= f).result = (f a).result := by
  show (m.bind f).result = _
  rw [bind, h]

theorem events_bind_of_error (h : m.result = .error failure) : (m >>= f).events = m.events := by
  show (m.bind f).events = _
  rw [bind, h]

theorem result_bind_of_error (h : m.result = .error failure) :
    (m >>= f).result = .error failure := by
  show (m.bind f).result = _
  rw [bind, h]

/-- A sequence succeeds where both its parts do. -/
theorem result_bind_eq_ok {b : β} :
    (m >>= f).result = .ok b ↔ ∃ a, m.result = .ok a ∧ (f a).result = .ok b := by
  cases h : m.result with
  | ok a =>
    rw [result_bind_of_ok h]
    constructor
    · intro hb
      exact ⟨a, rfl, hb⟩
    · rintro ⟨_, ⟨⟩, hb⟩
      exact hb
  | error failure =>
    rw [result_bind_of_error h]
    constructor
    · intro hb
      cases hb
    · rintro ⟨_, ⟨⟩, _⟩

theorem mem_events_bind {e : event} :
    e ∈ (m >>= f).events ↔ e ∈ m.events ∨ ∃ a, m.result = .ok a ∧ e ∈ (f a).events := by
  cases h : m.result with
  | ok a =>
    rw [events_bind_of_ok h, List.mem_append]
    constructor
    · exact Or.imp_right fun he => ⟨a, rfl, he⟩
    · exact Or.imp_right fun ⟨_, heq, he⟩ => by
        cases heq
        exact he
  | error failure =>
    rw [events_bind_of_error h]
    constructor
    · exact .inl
    · rintro (he | ⟨_, ⟨⟩, _⟩)
      exact he

end Bind

end Traced

end Amalgam
