import Amalgam.Memory.ReaderSlots
import Mathlib.Data.Finset.Card

/-!
# Amalgam — readers and writers exclude each other

What the gate, the mutexes and the scan of a writer keep of the reader slots.

* **`readers_excluded`** — the guards exclude each other, no count underflows, every count has its
  bit, a `try_write` that fails leaves the gate as it was, and a parked reader is woken.
-/

namespace Amalgam

namespace ReaderSlots

variable {size : Nat} {s u : State} {t : Nat}

/-! ## The mutex of the writers -/

/-- Whoever stands here has the mutex of the writers. -/
def Pc.serial : Pc → Bool
  | .close _ | .group _ _ | .slot _ _ _ _ | .outOfBounds | .open_ | .interested | .lockNotify | .notify
  | .unlockNotify | .unlockSerial => true
  | _ => false

/-- And has closed the gate. -/
def Pc.shut : Pc → Bool
  | .group _ _ | .slot _ _ _ _ | .outOfBounds | .open_ => true
  | _ => false

theorem Pc.serial_of_shut {pc : Pc} (h : pc.shut = true) : pc.serial = true := by
  cases pc <;> first | rfl | cases h

def State.writer (s : State) (t : Nat) : Prop := 0 < s.writes t ∨ (s.pc t).serial = true

def State.shuts (s : State) (t : Nat) : Prop := 0 < s.writes t ∨ (s.pc t).shut = true

theorem State.writer_of_shuts (h : s.shuts t) : s.writer t := h.imp id Pc.serial_of_shut

structure Writers (s : State) : Prop where
  serial : ∀ t, s.serial = some t ↔ s.writer t
  once : ∀ t, s.writes t + (s.pc t).serial.toNat ≤ 1
  gate : s.gate = true ↔ ∃ t, s.shuts t

/-- What a thread does as a writer. -/
structure WriterMove (s u : State) (t : Nat) : Prop where
  others : ∀ x, x ≠ t → Woken s u x ∧ u.writes x = s.writes x
  locks : u.serial = s.serial ∧ (u.writer t ↔ s.writer t) ∨
    s.serial = none ∧ u.serial = some t ∧ u.writer t ∨
      s.writer t ∧ u.serial = none ∧ ¬ u.writer t
  once : u.writes t + (u.pc t).serial.toNat ≤ 1
  gate : u.gate = s.gate ∧ (u.shuts t ↔ s.shuts t) ∨ u.gate = true ∧ u.shuts t ∨
    u.gate = false ∧ s.shuts t ∧ ¬ u.shuts t

theorem Writers.only (h : Writers s) {x : Nat} (ht : s.writer t) (hx : s.writer x) : x = t :=
  Option.some.inj (((h.serial x).mpr hx).symm.trans ((h.serial t).mpr ht))

theorem Writers.moved (h : Writers s) (hmove : WriterMove s u t) : Writers u := by
  have hwriter : ∀ x, x ≠ t → (u.writer x ↔ s.writer x) := fun x hx => by
    unfold State.writer
    rw [(hmove.others x hx).2, (hmove.others x hx).1.view Pc.serial rfl]
  have hshuts : ∀ x, x ≠ t → (u.shuts x ↔ s.shuts x) := fun x hx => by
    unfold State.shuts
    rw [(hmove.others x hx).2, (hmove.others x hx).1.view Pc.shut rfl]
  refine ⟨fun x => ?_, fun x => ?_, ?_⟩
  · by_cases hx : x = t
    · subst hx
      rcases hmove.locks with ⟨hserial, hsame⟩ | ⟨-, hserial, hnow⟩ | ⟨-, hserial, hnot⟩
      · rw [hserial, hsame]
        exact h.serial x
      · exact ⟨fun _ => hnow, fun _ => hserial⟩
      · rw [hserial]
        exact ⟨nofun, fun hnow => absurd hnow hnot⟩
    · rw [hwriter x hx]
      rcases hmove.locks with ⟨hserial, -⟩ | ⟨hfree, hserial, -⟩ | ⟨hheld, hserial, -⟩
      · rw [hserial]
        exact h.serial x
      · rw [hserial, ← h.serial x, hfree]
        exact ⟨fun heq => absurd (Option.some.inj heq).symm hx, nofun⟩
      · rw [hserial]
        exact ⟨nofun, fun hnow => absurd (h.only hheld hnow) hx⟩
  · by_cases hx : x = t
    · rw [hx]
      exact hmove.once
    · rw [(hmove.others x hx).2, (hmove.others x hx).1.view Pc.serial rfl]
      exact h.once x
  · rcases hmove.gate with ⟨hgate, hsame⟩ | ⟨hgate, hnow⟩ | ⟨hgate, hbefore, hnot⟩
    · rw [hgate, h.gate]
      refine exists_congr fun x => ?_
      by_cases hx : x = t
      · rw [hx]
        exact hsame.symm
      · exact (hshuts x hx).symm
    · exact ⟨fun _ => ⟨t, hnow⟩, fun _ => hgate⟩
    · -- Nobody else has the mutex.
      refine ⟨fun htrue => absurd (hgate.symm.trans htrue) nofun, fun ⟨x, hx⟩ => ?_⟩
      by_cases hxt : x = t
      · rw [hxt] at hx
        exact absurd hx hnot
      · have hheld := State.writer_of_shuts ((hshuts x hxt).mp hx)
        exact absurd (h.only (State.writer_of_shuts hbefore) hheld) hxt

theorem goto_writer (s : State) (t : Nat) (pc : Pc) :
    (goto s t pc).writer t ↔ 0 < s.writes t ∨ pc.serial = true := by
  unfold State.writer
  rw [goto_self]
  rfl

theorem goto_shuts (s : State) (t : Nat) (pc : Pc) :
    (goto s t pc).shuts t ↔ 0 < s.writes t ∨ pc.shut = true := by
  unfold State.shuts
  rw [goto_self]
  rfl

/-- A thread that goes on as a writer or not, as before. -/
theorem Writers.goto (h : Writers s) {old : Pc} (hpc : s.pc t = old) {pc : Pc}
    {owner local_ shared : Nat → Nat} {initialized : Nat → BitVec 64} {waiters : Option Nat}
    {waiting : Nat} {locals shareds : Nat → Nat} (hserial : pc.serial = old.serial)
    (hshut : pc.shut = old.shut) :
    Writers (goto { s with owner, local_, shared, initialized, waiters, waiting, locals, shareds }
      t pc) :=
  h.moved (t := t)
    { others := fun _ hx => ⟨goto_other _ pc hx, rfl⟩
      locks := .inl ⟨rfl, by rw [goto_writer, hserial, ← hpc]; rfl⟩
      once := by
        rw [goto_self, hserial, ← hpc]
        exact h.once t
      gate := .inl ⟨rfl, by rw [goto_shuts, hshut, ← hpc]; rfl⟩ }

theorem Writers.no_guard (h : Writers s) (hpc : (s.pc t).serial = true) : s.writes t = 0 := by
  have honce := h.once t
  rw [hpc] at honce
  have hone : true.toNat = 1 := rfl
  omega

/-- A thread gets the mutex of the writers. -/
theorem Writers.acquire (h : Writers s) (hfree : s.serial = none) (tried : Bool) :
    Writers (ReaderSlots.goto { s with serial := some t } t (.close tried)) := by
  have hnot : ¬ s.writer t := fun hwriter => by
    have hheld := (h.serial t).mpr hwriter
    rw [hfree] at hheld
    cases hheld
  have hnone : s.writes t = 0 := Nat.eq_zero_of_not_pos fun hpos => hnot (.inl hpos)
  have hserial : (s.pc t).shut = false := by
    cases hshut : (s.pc t).shut with
    | false => rfl
    | true => exact absurd (.inr (Pc.serial_of_shut hshut)) hnot
  refine h.moved (t := t) {
    others := fun _ hx => ⟨goto_other _ _ hx, rfl⟩
    locks := .inr (.inl ⟨hfree, rfl, (goto_writer _ _ _).mpr (.inr rfl)⟩)
    once := by
      rw [goto_self]
      show s.writes t + 1 ≤ 1
      omega
    gate := .inl ⟨rfl, ?_⟩ }
  rw [goto_shuts]
  unfold State.shuts
  rw [hserial]
  exact Iff.rfl

/-- A scan that found nothing gives the writer its guard. -/
theorem Writers.nextGroup (h : Writers s) (hpc : (s.pc t).serial = true) (hshut : (s.pc t).shut = true)
    (tried : Bool) (group : Nat) : Writers (nextGroup size s t tried group) := by
  have hnone := h.no_guard hpc
  unfold ReaderSlots.nextGroup
  split
  · exact h.goto rfl (show (Pc.group tried (group + 1)).serial = _ from hpc.symm) hshut.symm
  · have hguard : Function.update s.writes t (s.writes t + 1) t = 1 := by
      rw [Function.update_self, hnone]
    have hpos : 0 < Function.update s.writes t (s.writes t + 1) t := by omega
    refine h.moved (t := t) {
      others := fun x hx => ⟨goto_other _ _ hx, Function.update_of_ne hx _ _⟩
      locks := .inl ⟨rfl, ?_⟩
      once := ?_
      gate := .inl ⟨rfl, ?_⟩ }
    · rw [goto_writer]
      exact ⟨fun _ => .inr hpc, fun _ => .inl hpos⟩
    · rw [goto_self]
      exact Nat.le_of_eq hguard
    · rw [goto_shuts]
      exact ⟨fun _ => .inr hshut, fun _ => .inl hpos⟩

theorem Writers.busy (h : Writers s) (hpc : (s.pc t).serial = true) (hshut : (s.pc t).shut = true)
    (tried : Bool) : Writers (busy s t tried) := by
  cases tried
  · exact h.goto rfl (show (Pc.group false 0).serial = _ from hpc.symm) hshut.symm
  · exact h.goto rfl (show Pc.open_.serial = _ from hpc.symm) hshut.symm

theorem Writers.step (h : Writers s) (hstep : step size s t = some u) : Writers u := by
  unfold ReaderSlots.step at hstep
  cases hpc : s.pc t with
  | idle | parked | outOfBounds =>
    rw [hpc] at hstep
    cases hstep
  | initialized | store _ | unload _ | interest | wait | unlockWaiters | uninterest | unlockNotify =>
    rw [hpc] at hstep
    obtain rfl := Option.some.inj hstep
    exact h.goto hpc rfl rfl
  | unstore _ retry | sub retry =>
    rw [hpc] at hstep
    obtain rfl := Option.some.inj hstep
    cases retry <;> exact h.goto hpc rfl rfl
  | gateWaiting | interested =>
    rw [hpc] at hstep
    obtain rfl := Option.some.inj hstep
    split <;> exact h.goto hpc rfl rfl
  | owner =>
    rw [hpc] at hstep
    dsimp only at hstep
    split at hstep
    · obtain rfl := Option.some.inj hstep
      exact h.goto hpc rfl rfl
    · split at hstep <;> obtain rfl := Option.some.inj hstep <;> exact h.goto hpc rfl rfl
  | exchange | load | add =>
    rw [hpc] at hstep
    dsimp only at hstep
    split at hstep <;> obtain rfl := Option.some.inj hstep <;> exact h.goto hpc rfl rfl
  | gate shared =>
    rw [hpc] at hstep
    cases shared <;> dsimp only at hstep <;> split at hstep <;>
    obtain rfl := Option.some.inj hstep <;> exact h.goto hpc rfl rfl
  | lockWaiters | lockNotify =>
    rw [hpc] at hstep
    dsimp only at hstep
    split at hstep
    · obtain rfl := Option.some.inj hstep
      exact h.goto hpc rfl rfl
    · cases hstep
  | lockSerial =>
    rw [hpc] at hstep
    dsimp only at hstep
    split at hstep
    · rename_i hfree
      obtain rfl := Option.some.inj hstep
      exact h.acquire hfree false
    · cases hstep
  | tryLockSerial =>
    rw [hpc] at hstep
    dsimp only at hstep
    split at hstep
    · rename_i hfree
      obtain rfl := Option.some.inj hstep
      exact h.acquire hfree true
    · obtain rfl := Option.some.inj hstep
      exact h.goto hpc rfl rfl
  | close tried =>
    rw [hpc] at hstep
    obtain rfl := Option.some.inj hstep
    have hnone := h.no_guard (t := t) (by rw [hpc]; rfl)
    refine h.moved (t := t) {
      others := fun _ hx => ⟨goto_other _ _ hx, rfl⟩
      locks := .inl ⟨rfl, ?_⟩
      once := by
        rw [goto_self]
        show s.writes t + 1 ≤ 1
        omega
      gate := .inr (.inl ⟨rfl, (goto_shuts _ _ _).mpr (.inr rfl)⟩) }
    rw [goto_writer]
    exact ⟨fun _ => .inr (by rw [hpc]; rfl), fun _ => .inr rfl⟩
  | group tried group =>
    rw [hpc] at hstep
    dsimp only at hstep
    split at hstep <;> obtain rfl := Option.some.inj hstep
    · exact h.nextGroup (by rw [hpc]; rfl) (by rw [hpc]; rfl) tried group
    · exact h.goto hpc rfl rfl
  | slot tried group used shared =>
    rw [hpc] at hstep
    cases shared with
    | false =>
      dsimp only at hstep
      split at hstep
      · obtain rfl := Option.some.inj hstep
        exact h.goto hpc rfl rfl
      · split at hstep <;> obtain rfl := Option.some.inj hstep
        · exact h.goto hpc rfl rfl
        · exact h.busy (by rw [hpc]; rfl) (by rw [hpc]; rfl) tried
    | true =>
      dsimp only at hstep
      split at hstep
      · split at hstep <;> obtain rfl := Option.some.inj hstep
        · exact h.nextGroup (by rw [hpc]; rfl) (by rw [hpc]; rfl) tried group
        · exact h.goto hpc rfl rfl
      · obtain rfl := Option.some.inj hstep
        exact h.busy (by rw [hpc]; rfl) (by rw [hpc]; rfl) tried
  | open_ =>
    rw [hpc] at hstep
    obtain rfl := Option.some.inj hstep
    have hnone := h.no_guard (t := t) (by rw [hpc]; rfl)
    refine h.moved (t := t) {
      others := fun _ hx => ⟨goto_other _ _ hx, rfl⟩
      locks := .inl ⟨rfl, ?_⟩
      once := by
        rw [goto_self]
        show s.writes t + 1 ≤ 1
        omega
      gate := .inr (.inr ⟨rfl, .inr (by rw [hpc]; rfl), ?_⟩) }
    · rw [goto_writer]
      exact ⟨fun _ => .inr (by rw [hpc]; rfl), fun _ => .inr rfl⟩
    · rw [goto_shuts]
      exact fun hshuts => hshuts.elim (fun hpos => by exact absurd hnone (Nat.ne_of_gt hpos)) nofun
  | notify =>
    rw [hpc] at hstep
    obtain rfl := Option.some.inj hstep
    exact h.moved (t := t)
      { others := fun _ hx => ⟨notifyAll_other s hx, rfl⟩
        locks := .inl ⟨rfl, by unfold State.writer; rw [notifyAll_self, hpc]; rfl⟩
        once := by
          have honce := h.once t
          rw [hpc] at honce
          rw [notifyAll_self]
          exact honce
        gate := .inl ⟨rfl, by unfold State.shuts; rw [notifyAll_self, hpc]; rfl⟩ }
  | unlockSerial =>
    rw [hpc] at hstep
    obtain rfl := Option.some.inj hstep
    have hnone := h.no_guard (t := t) (by rw [hpc]; rfl)
    refine h.moved (t := t) {
      others := fun _ hx => ⟨goto_other _ _ hx, rfl⟩
      locks := .inr (.inr ⟨.inr (by rw [hpc]; rfl), rfl, ?_⟩)
      once := by
        rw [goto_self]
        show s.writes t + 0 ≤ 1
        omega
      gate := .inl ⟨rfl, by rw [goto_shuts]; unfold State.shuts; rw [hpc]; rfl⟩ }
    rw [goto_writer]
    exact fun hwriter => hwriter.elim (fun hpos => by exact absurd hnone (Nat.ne_of_gt hpos)) nofun

theorem Writers.next (h : Writers s) {a : Action} (hnext : next size s a = some u) : Writers u := by
  cases a with
  | read t | write t | tryWrite t =>
    unfold ReaderSlots.next at hnext
    dsimp only at hnext
    split at hnext
    · rename_i hidle
      obtain rfl := Option.some.inj hnext
      exact h.goto hidle rfl rfl
    · cases hnext
  | dropRead t shared =>
    cases shared <;> unfold ReaderSlots.next at hnext <;> dsimp only at hnext <;> split at hnext
    · rename_i hheld
      obtain rfl := Option.some.inj hnext
      exact h.goto hheld.1 rfl rfl
    · cases hnext
    · rename_i hheld
      obtain rfl := Option.some.inj hnext
      exact h.goto hheld.1 rfl rfl
    · cases hnext
  | dropWrite t =>
    unfold ReaderSlots.next at hnext
    dsimp only at hnext
    split at hnext
    · rename_i hheld
      obtain ⟨hidle, hpos⟩ := hheld
      obtain rfl := Option.some.inj hnext
      have honce := h.once t
      rw [hidle] at honce
      have hzero : Function.update s.writes t (s.writes t - 1) t = 0 := by
        rw [Function.update_self]
        have hone : s.writes t ≤ 1 := honce
        omega
      refine h.moved (t := t) {
        others := fun _ hx => ⟨goto_other _ _ hx, Function.update_of_ne hx _ _⟩
        locks := .inl ⟨rfl, ?_⟩
        once := ?_
        gate := .inl ⟨rfl, ?_⟩ }
      · rw [goto_writer]
        exact ⟨fun _ => .inl hpos, fun _ => .inr rfl⟩
      · rw [goto_self]
        show Function.update s.writes t (s.writes t - 1) t + 1 ≤ 1
        omega
      · rw [goto_shuts]
        exact ⟨fun _ => .inl hpos, fun _ => .inr rfl⟩
    · cases hnext
  | step t => exact h.step hnext

theorem Writers.init : Writers init where
  serial := fun _ => ⟨nofun, fun hwriter => hwriter.elim (fun hpos => by exact absurd hpos (Nat.lt_irrefl 0)) nofun⟩
  once := fun _ => Nat.zero_le _
  gate := ⟨nofun, fun ⟨_, hshuts⟩ => hshuts.elim (fun hpos => by exact absurd hpos (Nat.lt_irrefl 0)) nofun⟩

/-! ## The scan of a writer -/

def State.guards (s : State) (t : Nat) (shared : Bool) : Nat :=
  if shared then s.shareds t else s.locals t

/-- The guards that a writer at this point has not ruled out: the slot, and which count. -/
def Pc.leaves (i : Nat) (shared : Bool) : Pc → Prop
  | .group _ g => g ≤ i / 64
  | .slot _ g used half =>
    g < i / 64 ∨ i / 64 = g ∧ used.getLsbD (i % 64) = true ∧
      (half = true → i % 64 = used.ctz.toNat → shared = true)
  | _ => True

structure Excluded (size : Nat) (s : State) : Prop where
  written : ∀ w, 0 < s.writes w → ∀ t shared, s.guards t shared = 0
  left : ∀ w t shared, 0 < s.guards t shared → (s.pc w).leaves (index size t) shared

/-- No guard is new, and the writer rules out no more than before. -/
theorem Excluded.fewer (h : Excluded size s)
    (hguards : ∀ x shared, 0 < u.guards x shared → 0 < s.guards x shared)
    (hwrites : ∀ w, 0 < u.writes w → 0 < s.writes w)
    (hleaves : ∀ w i shared, (s.pc w).leaves i shared → (u.pc w).leaves i shared) :
    Excluded size u where
  written := fun w hw x shared => by
    have hnone := h.written w (hwrites w hw) x shared
    by_contra hsome
    have hpos := hguards x shared (Nat.pos_of_ne_zero hsome)
    omega
  left := fun w x shared hheld => hleaves w _ shared (h.left w x shared (hguards x shared hheld))

/-- A writer that stands here has ruled nothing out. -/
def Pc.lax : Pc → Bool
  | .group _ (_ + 1) | .slot _ _ _ _ => false
  | _ => true

theorem Pc.leaves_of_lax {pc : Pc} (h : pc.lax = true) (i : Nat) (shared : Bool) :
    pc.leaves i shared := by
  cases pc with
  | group tried g =>
    cases g with
    | zero => exact Nat.zero_le _
    | succ g => cases h
  | slot => cases h
  | _ => trivial

/-- A thread goes on, and rules nothing out. -/
theorem Excluded.goto (h : Excluded size s) {pc : Pc} (hlax : pc.lax = true)
    {owner local_ shared : Nat → Nat} {initialized : Nat → BitVec 64} {gate : Bool}
    {serial waiters : Option Nat} {waiting : Nat} {locals shareds writes : Nat → Nat}
    (hlocals : ∀ x, locals x ≤ s.locals x) (hshareds : ∀ x, shareds x ≤ s.shareds x)
    (hwrites : ∀ x, writes x ≤ s.writes x) :
    Excluded size (ReaderSlots.goto ⟨owner, local_, shared, initialized, gate, serial, waiters,
      waiting, s.pc, locals, shareds, writes⟩ t pc) := by
  refine h.fewer (fun x shared hheld => ?_) (fun w hw => Nat.lt_of_lt_of_le hw (hwrites w))
    fun w i shared hleaves => ?_
  · cases shared with
    | false => exact Nat.lt_of_lt_of_le hheld (hlocals x)
    | true => exact Nat.lt_of_lt_of_le hheld (hshareds x)
  · by_cases hw : w = t
    · rw [hw, goto_self]
      exact Pc.leaves_of_lax hlax i shared
    · show (Function.update s.pc t pc w).leaves i shared
      rw [Function.update_of_ne hw]
      exact hleaves

/-- A thread goes on from where it stood, and may rule out more. -/
theorem Excluded.goes (h : Excluded size s) {pc : Pc}
    (hleaves : ∀ x shared, 0 < s.guards x shared → pc.leaves (index size x) shared) :
    Excluded size (ReaderSlots.goto s t pc) where
  written := h.written
  left := fun w x shared hheld => by
    by_cases hw : w = t
    · rw [hw, goto_self]
      exact hleaves x shared hheld
    · show (Function.update s.pc t pc w).leaves _ shared
      rw [Function.update_of_ne hw]
      exact h.left w x shared hheld

theorem Slots.guard (h : Slots size s) {shared : Bool} (hheld : 0 < s.guards t shared) :
    s.bit (index size t) = true ∧
      (if shared then s.shared (index size t) else s.local_ (index size t)) ≠ 0 := by
  cases shared with
  | false => exact (h.local_guard hheld).symm
  | true => exact (h.shared_held (Nat.lt_of_lt_of_le hheld (Nat.le_add_right _ _))).symm

/-- A new guard finds the gate open, so that no writer scans. -/
theorem Writers.newGuard (h : Writers s) (hgate : s.gate = false)
    {locals shareds : Nat → Nat} :
    Excluded size (ReaderSlots.goto { s with locals, shareds } t .idle) := by
  have hopen : ∀ w, ¬ s.shuts w := fun w hshuts => by
    have hclosed := h.gate.mpr ⟨w, hshuts⟩
    rw [hgate] at hclosed
    cases hclosed
  refine ⟨fun w hw => absurd (.inl hw) (hopen w), fun w x shared _ => ?_⟩
  by_cases hw : w = t
  · rw [hw, goto_self]
    trivial
  · show (Function.update s.pc t .idle w).leaves _ shared
    rw [Function.update_of_ne hw]
    have hshut : (s.pc w).shut ≠ true := fun hshut => hopen w (.inr hshut)
    refine Pc.leaves_of_lax ?_ _ _
    cases hpc : s.pc w <;> rw [hpc] at hshut <;> first | rfl | exact absurd rfl hshut

theorem group_lt (size x : Nat) : index size x / 64 < groups size := by
  have hlt := index_lt size x
  unfold groups
  omega

theorem Excluded.nextGroup (h : Excluded size s) (tried : Bool) {group : Nat}
    (hpast : ∀ x shared, 0 < s.guards x shared → group < index size x / 64) :
    Excluded size (nextGroup size s t tried group) := by
  unfold ReaderSlots.nextGroup
  split
  · exact h.goes hpast
  · rename_i hlast
    -- No guard is left in any group.
    have hnone : ∀ x shared, ¬ 0 < s.guards x shared := fun x shared hheld => by
      have hgroup := hpast x shared hheld
      have hlt := group_lt size x
      omega
    exact ⟨fun _ _ x shared => Nat.eq_zero_of_not_pos (hnone x shared),
      fun _ x shared hheld => absurd hheld (hnone x shared)⟩

/-- What a scan does with the next bit of a bitmap. -/
theorem Excluded.scan (h : Excluded size s) (hslots : Slots size s)
    (hstep : step size s t = some u) (hpc : (∃ tried group, s.pc t = .group tried group) ∨
      ∃ tried group used shared, s.pc t = .slot tried group used shared) : Excluded size u := by
  have hleft := h.left t
  have hbusy : ∀ tried, Excluded size (busy s t tried) := fun tried => by
    cases tried <;> exact h.goto rfl (fun _ => Nat.le_refl _) (fun _ => Nat.le_refl _)
      fun _ => Nat.le_refl _
  unfold ReaderSlots.step at hstep
  rcases hpc with ⟨tried, g, hpc⟩ | ⟨tried, g, used, shared, hpc⟩ <;> rw [hpc] at hstep hleft
  · dsimp only at hstep
    split at hstep <;> rename_i hused <;> obtain rfl := Option.some.inj hstep
    · refine h.nextGroup tried fun x shared hheld => ?_
      refine Nat.lt_of_le_of_ne (hleft x shared hheld) fun hgroup => ?_
      have hbit := (hslots.guard hheld).1
      unfold State.bit at hbit
      rw [← hgroup, hused] at hbit
      simp at hbit
    · refine h.goes fun x shared hheld => ?_
      have hbit := (hslots.guard hheld).1
      rcases Nat.lt_or_eq_of_le (hleft x shared hheld) with hlater | hgroup
      · exact .inl hlater
      · unfold State.bit at hbit
        rw [← hgroup] at hbit
        exact .inr ⟨hgroup.symm, hbit, nofun⟩
  · cases shared with
    | false =>
      dsimp only at hstep
      split at hstep
      · obtain rfl := Option.some.inj hstep
        exact h.goes fun _ _ _ => trivial
      · split at hstep <;> rename_i hcount <;> obtain rfl := Option.some.inj hstep
        · refine h.goes fun x shared hheld => ?_
          rcases hleft x shared hheld with hlater | ⟨hgroup, hbit, -⟩
          · exact .inl hlater
          · refine .inr ⟨hgroup, hbit, fun _ hlowest => ?_⟩
            cases shared with
            | true => rfl
            | false =>
              have hslot : index size x = 64 * g + used.ctz.toNat := by omega
              have hsome := (hslots.guard hheld).2
              rw [hslot] at hsome
              exact absurd hcount hsome
        · exact hbusy tried
    | true =>
      dsimp only at hstep
      split at hstep
      · rename_i hcount
        have hother : ∀ x shared, 0 < s.guards x shared → g < index size x / 64 ∨
            index size x / 64 = g ∧
              (used &&& (used - 1#64)).getLsbD (index size x % 64) = true := by
          intro x shared hheld
          rcases hleft x shared hheld with hlater | ⟨hgroup, hbit, hlowest⟩
          · exact .inl hlater
          · refine .inr ⟨hgroup, Bits.clear_lowest hbit fun heq => ?_⟩
            have hslot : index size x = 64 * g + used.ctz.toNat := by omega
            have hsome := (hslots.guard hheld).2
            rw [hlowest rfl heq, hslot] at hsome
            exact hsome hcount
        split at hstep <;> rename_i hrest <;> obtain rfl := Option.some.inj hstep
        · refine h.nextGroup tried fun x shared hheld => ?_
          rcases hother x shared hheld with hlater | ⟨-, hbit⟩
          · exact hlater
          · rw [hrest] at hbit
            simp at hbit
        · exact h.goes fun x shared hheld =>
            (hother x shared hheld).imp id fun hbit => ⟨hbit.1, hbit.2, nofun⟩
      · obtain rfl := Option.some.inj hstep
        exact hbusy tried

theorem Excluded.step (h : Excluded size s) (hslots : Slots size s) (hwriters : Writers s)
    (hstep : step size s t = some u) : Excluded size u := by
  have hgoto : ∀ {pc : Pc} {owner local_ shared : Nat → Nat} {initialized : Nat → BitVec 64}
      {gate : Bool} {serial waiters : Option Nat} {waiting : Nat}, pc.lax = true →
      Excluded size (ReaderSlots.goto ⟨owner, local_, shared, initialized, gate, serial, waiters,
        waiting, s.pc, s.locals, s.shareds, s.writes⟩ t pc) := fun hlax =>
    h.goto hlax (fun _ => Nat.le_refl _) (fun _ => Nat.le_refl _) fun _ => Nat.le_refl _
  cases hpc : s.pc t with
  | group tried group => exact h.scan hslots hstep (.inl ⟨tried, group, hpc⟩)
  | slot tried group used shared =>
    exact h.scan hslots hstep (.inr ⟨tried, group, used, shared, hpc⟩)
  | idle | parked | outOfBounds =>
    unfold ReaderSlots.step at hstep
    rw [hpc] at hstep
    cases hstep
  | initialized | store _ | unload _ | interest | wait | unlockWaiters | uninterest | unlockNotify
  | close _ | open_ | unlockSerial =>
    unfold ReaderSlots.step at hstep
    rw [hpc] at hstep
    obtain rfl := Option.some.inj hstep
    exact hgoto rfl
  | unstore _ retry | sub retry =>
    unfold ReaderSlots.step at hstep
    rw [hpc] at hstep
    obtain rfl := Option.some.inj hstep
    cases retry <;> exact hgoto rfl
  | gateWaiting | interested =>
    unfold ReaderSlots.step at hstep
    rw [hpc] at hstep
    obtain rfl := Option.some.inj hstep
    split <;> exact hgoto rfl
  | owner =>
    unfold ReaderSlots.step at hstep
    rw [hpc] at hstep
    dsimp only at hstep
    split at hstep
    · obtain rfl := Option.some.inj hstep
      exact hgoto rfl
    · split at hstep <;> obtain rfl := Option.some.inj hstep <;> exact hgoto rfl
  | exchange | load | add | tryLockSerial =>
    unfold ReaderSlots.step at hstep
    rw [hpc] at hstep
    dsimp only at hstep
    split at hstep <;> obtain rfl := Option.some.inj hstep <;> exact hgoto rfl
  | lockWaiters | lockNotify | lockSerial =>
    unfold ReaderSlots.step at hstep
    rw [hpc] at hstep
    dsimp only at hstep
    split at hstep
    · obtain rfl := Option.some.inj hstep
      exact hgoto rfl
    · cases hstep
  | gate shared =>
    unfold ReaderSlots.step at hstep
    rw [hpc] at hstep
    cases shared <;> dsimp only at hstep <;> split at hstep <;> rename_i hgate <;>
    obtain rfl := Option.some.inj hstep
    · exact hgoto rfl
    · exact hwriters.newGuard (Bool.eq_false_of_not_eq_true hgate)
    · exact hgoto rfl
    · exact hwriters.newGuard (Bool.eq_false_of_not_eq_true hgate)
  | notify =>
    unfold ReaderSlots.step at hstep
    rw [hpc] at hstep
    obtain rfl := Option.some.inj hstep
    refine h.fewer (fun _ _ hheld => hheld) (fun _ hw => hw) fun w i shared hleaves => ?_
    by_cases hw : w = t
    · rw [hw, notifyAll_self]
      trivial
    · rcases notifyAll_other s hw with hsame | ⟨-, hafter⟩
      · rw [hsame]
        exact hleaves
      · rw [hafter]
        trivial

theorem update_pred_le (f : Nat → Nat) (t x : Nat) : Function.update f t (f t - 1) x ≤ f x := by
  by_cases hx : x = t
  · rw [hx, Function.update_self]
    omega
  · exact Nat.le_of_eq (Function.update_of_ne hx _ _)

theorem Excluded.next (h : Excluded size s) (hslots : Slots size s) (hwriters : Writers s)
    {a : Action} (hnext : next size s a = some u) : Excluded size u := by
  cases a with
  | read t | write t | tryWrite t =>
    unfold ReaderSlots.next at hnext
    dsimp only at hnext
    split at hnext
    · obtain rfl := Option.some.inj hnext
      exact h.goto rfl (fun _ => Nat.le_refl _) (fun _ => Nat.le_refl _) fun _ => Nat.le_refl _
    · cases hnext
  | dropRead t shared =>
    cases shared <;> unfold ReaderSlots.next at hnext <;> dsimp only at hnext <;> split at hnext
    · obtain rfl := Option.some.inj hnext
      exact h.goto rfl (update_pred_le s.locals t) (fun _ => Nat.le_refl _) fun _ => Nat.le_refl _
    · cases hnext
    · obtain rfl := Option.some.inj hnext
      exact h.goto rfl (fun _ => Nat.le_refl _) (update_pred_le s.shareds t) fun _ => Nat.le_refl _
    · cases hnext
  | dropWrite t =>
    unfold ReaderSlots.next at hnext
    dsimp only at hnext
    split at hnext
    · obtain rfl := Option.some.inj hnext
      exact h.goto rfl (fun _ => Nat.le_refl _) (fun _ => Nat.le_refl _) (update_pred_le s.writes t)
    · cases hnext
  | step t => exact h.step hslots hwriters hnext

/-! ## Parked readers -/

/-- Whoever stands here has the mutex of the waiters. -/
def Pc.waitLocked : Pc → Bool
  | .gateWaiting | .wait | .unlockWaiters | .notify | .unlockNotify => true
  | _ => false

/-- Whoever stands here is counted as waiting. -/
def Pc.waits : Pc → Bool
  | .lockWaiters | .gateWaiting | .wait | .parked | .unlockWaiters | .uninterest => true
  | _ => false

structure Waits (s : State) : Prop where
  waiters : ∀ t, s.waiters = some t ↔ (s.pc t).waitLocked = true
  waiting : ∃ interested : Finset Nat, interested.card = s.waiting ∧
    ∀ t, t ∈ interested ↔ (s.pc t).waits = true
  /-- A reader that saw the gate closed parks before the writer that has opened it notifies. -/
  wait : ∀ t, s.pc t = .wait →
    s.gate = true ∨ ∃ w, s.pc w = .interested ∨ s.pc w = .lockNotify
  parked : ∀ t, s.pc t = .parked →
    s.gate = true ∨ ∃ w, s.pc w = .interested ∨ s.pc w = .lockNotify ∨ s.pc w = .notify

/-- What a thread does to the waiting readers; what is not given does not concern it. -/
structure WaitMove (s u : State) (t : Nat) : Prop where
  others : ∀ x, x ≠ t → Woken s u x
  locks : u.waiters = s.waiters ∧ (u.pc t).waitLocked = (s.pc t).waitLocked ∨
    s.waiters = none ∧ u.waiters = some t ∧ (u.pc t).waitLocked = true ∨
      (s.pc t).waitLocked = true ∧ u.waiters = none ∧ (u.pc t).waitLocked = false
  waiting : u.waiting = s.waiting ∧ (u.pc t).waits = (s.pc t).waits ∨
    u.waiting = s.waiting + 1 ∧ (s.pc t).waits = false ∧ (u.pc t).waits = true ∨
      u.waiting = s.waiting - 1 ∧ (s.pc t).waits = true ∧ (u.pc t).waits = false
  gate : s.gate = true → u.gate = true ∨ u.pc t = .interested
  wait : u.pc t = .wait → u.gate = true
  parked : u.pc t = .parked → s.pc t = .wait
  pendingWait : s.pc t = .interested ∨ s.pc t = .lockNotify → (∃ x, x ≠ t ∧ s.pc x = .wait) →
    u.pc t = .interested ∨ u.pc t = .lockNotify
  pendingParked : s.pc t = .interested ∨ s.pc t = .lockNotify ∨ s.pc t = .notify →
    (∃ x, x ≠ t ∧ s.pc x = .parked ∧ u.pc x = .parked) →
      u.pc t = .interested ∨ u.pc t = .lockNotify ∨ u.pc t = .notify

theorem Waits.moved (h : Waits s) (hmove : WaitMove s u t) : Waits u := by
  -- Whoever notifies is not asleep itself.
  have hstays : ∀ {w : Nat} {pc : Pc}, w ≠ t → s.pc w = pc → pc ≠ .parked → u.pc w = pc :=
    fun hw hpc hne => ((hmove.others _ hw).resolve_right fun hwoken =>
      hne (hpc.symm.trans hwoken.1)).trans hpc
  have hopened : s.gate = true → u.gate = true ∨ ∃ w, u.pc w = .interested := fun hgate =>
    (hmove.gate hgate).imp id fun hpc => ⟨t, hpc⟩
  have hwaiting : ∀ x, x ≠ t → s.pc x = .wait →
      u.gate = true ∨ ∃ w, u.pc w = .interested ∨ u.pc w = .lockNotify := by
    intro x hx hpc
    rcases h.wait x hpc with hgate | ⟨w, hw⟩
    · exact (hopened hgate).imp id fun ⟨w, hw⟩ => ⟨w, .inl hw⟩
    · by_cases hwt : w = t
      · rw [hwt] at hw
        exact .inr ⟨t, hmove.pendingWait hw ⟨x, hx, hpc⟩⟩
      · exact .inr ⟨w, hw.imp (hstays hwt · nofun) (hstays hwt · nofun)⟩
  refine ⟨fun x => ?_, ?_, fun x hpc => ?_, fun x hpc => ?_⟩
  · by_cases hx : x = t
    · subst hx
      rcases hmove.locks with ⟨hwaiters, hsame⟩ | ⟨-, hwaiters, hnow⟩ | ⟨-, hwaiters, hnot⟩
      · rw [hwaiters, hsame]
        exact h.waiters x
      · exact ⟨fun _ => hnow, fun _ => hwaiters⟩
      · rw [hwaiters, hnot]
        exact ⟨nofun, nofun⟩
    · rw [(hmove.others x hx).view Pc.waitLocked rfl, ← h.waiters x]
      rcases hmove.locks with ⟨hwaiters, -⟩ | ⟨hfree, hwaiters, -⟩ | ⟨hheld, hwaiters, -⟩
      · rw [hwaiters]
      · rw [hwaiters, hfree]
        exact ⟨fun heq => absurd (Option.some.inj heq).symm hx, nofun⟩
      · rw [hwaiters, (h.waiters t).mpr hheld]
        exact ⟨nofun, fun heq => absurd (Option.some.inj heq).symm hx⟩
  · obtain ⟨interested, hcard, hmem⟩ := h.waiting
    have hother : ∀ x, x ≠ t → ((u.pc x).waits = true ↔ x ∈ interested) := fun x hx => by
      rw [(hmove.others x hx).view Pc.waits rfl, hmem x]
    rcases hmove.waiting with ⟨hwaiting, hsame⟩ | ⟨hwaiting, hbefore, hnow⟩ | ⟨hwaiting, hbefore, hnot⟩
    · refine ⟨interested, hcard.trans hwaiting.symm, fun x => ?_⟩
      by_cases hx : x = t
      · rw [hx, hsame]
        exact hmem t
      · exact (hother x hx).symm
    · have hnew : t ∉ interested := fun hin => by
        rw [hmem t, hbefore] at hin
        cases hin
      refine ⟨insert t interested, ?_, fun x => ?_⟩
      · rw [Finset.card_insert_of_notMem hnew, hcard, hwaiting]
      · rw [Finset.mem_insert]
        by_cases hx : x = t
        · rw [hx]
          exact ⟨fun _ => hnow, fun _ => .inl rfl⟩
        · rw [hother x hx]
          exact ⟨fun hin => hin.resolve_left hx, .inr⟩
    · have hin : t ∈ interested := (hmem t).mpr hbefore
      refine ⟨interested.erase t, ?_, fun x => ?_⟩
      · rw [Finset.card_erase_of_mem hin, hcard, hwaiting]
      · rw [Finset.mem_erase]
        by_cases hx : x = t
        · rw [hx, hnot]
          exact ⟨fun hne => absurd rfl hne.1, nofun⟩
        · rw [hother x hx]
          exact ⟨fun hin => hin.2, fun hin => ⟨hx, hin⟩⟩
  · by_cases hx : x = t
    · rw [hx] at hpc
      exact .inl (hmove.wait hpc)
    · rcases hmove.others x hx with hsame | ⟨-, hafter⟩
      · exact hwaiting x hx (hsame.symm.trans hpc)
      · rw [hafter] at hpc
        cases hpc
  · by_cases hx : x = t
    · rw [hx] at hpc
      -- It parks, while the writer is not past its mutex.
      have hbefore := hmove.parked hpc
      rcases h.wait t hbefore with hgate | ⟨w, hw⟩
      · exact (hopened hgate).imp id fun ⟨w, hw⟩ => ⟨w, .inl hw⟩
      · have hwt : w ≠ t := by
          rintro rfl
          rw [hbefore] at hw
          exact hw.elim nofun nofun
        have hkept : u.pc w = .interested ∨ u.pc w = .lockNotify :=
          hw.imp (hstays hwt · nofun) (hstays hwt · nofun)
        exact .inr ⟨w, hkept.imp id .inl⟩
    · rcases hmove.others x hx with hsame | ⟨-, hafter⟩
      · have hbefore := hsame.symm.trans hpc
        rcases h.parked x hbefore with hgate | ⟨w, hw⟩
        · exact (hopened hgate).imp id fun ⟨w, hw⟩ => ⟨w, .inl hw⟩
        · by_cases hwt : w = t
          · rw [hwt] at hw
            exact .inr ⟨t, hmove.pendingParked hw ⟨x, hx, hbefore, hpc⟩⟩
          · exact .inr ⟨w, hw.imp (hstays hwt · nofun)
              (Or.imp (hstays hwt · nofun) (hstays hwt · nofun))⟩
      · rw [hafter] at hpc
        cases hpc

/-- A thread that goes on, and does not have to wake anybody. -/
theorem Waits.goes (h : Waits s) {old : Pc} (hpc : s.pc t = old) {pc : Pc} {gate : Bool}
    {owner local_ shared : Nat → Nat} {initialized : Nat → BitVec 64} {serial waiters : Option Nat}
    {waiting : Nat} {locals shareds writes : Nat → Nat}
    (hlocks : waiters = s.waiters ∧ pc.waitLocked = old.waitLocked ∨
      s.waiters = none ∧ waiters = some t ∧ pc.waitLocked = true ∨
        old.waitLocked = true ∧ waiters = none ∧ pc.waitLocked = false)
    (hwaiting : waiting = s.waiting ∧ pc.waits = old.waits ∨
      waiting = s.waiting + 1 ∧ old.waits = false ∧ pc.waits = true ∨
        waiting = s.waiting - 1 ∧ old.waits = true ∧ pc.waits = false)
    (hgate : s.gate = true → gate = true ∨ pc = .interested)
    (hwait : pc = .wait → gate = true) (hparked : pc = .parked → old = .wait)
    (hold : old ≠ .interested ∧ old ≠ .lockNotify ∧ old ≠ .notify) :
    Waits (ReaderSlots.goto ⟨owner, local_, shared, initialized, gate, serial, waiters, waiting, s.pc,
      locals, shareds, writes⟩ t pc) := by
  subst hpc
  exact h.moved (t := t)
    { others := fun _ hx => .inl (Function.update_of_ne hx _ _)
      locks := by rw [goto_self]; exact hlocks
      waiting := by rw [goto_self]; exact hwaiting
      gate := by rw [goto_self]; exact hgate
      wait := by rw [goto_self]; exact hwait
      parked := by rw [goto_self]; exact hparked
      pendingWait := fun hpending => absurd hpending (not_or.mpr ⟨hold.1, hold.2.1⟩)
      pendingParked := fun hpending =>
        absurd hpending (not_or.mpr ⟨hold.1, not_or.mpr hold.2⟩) }

/-- A thread that the waiting readers do not see. -/
theorem Waits.goto (h : Waits s) {old : Pc} (hpc : s.pc t = old) {pc : Pc} {gate : Bool}
    {owner local_ shared : Nat → Nat} {initialized : Nat → BitVec 64} {serial : Option Nat}
    {locals shareds writes : Nat → Nat} (hlocked : pc.waitLocked = old.waitLocked)
    (hwaits : pc.waits = old.waits) (hgate : s.gate = true → gate = true ∨ pc = .interested)
    (hwait : pc = .wait → gate = true) (hparked : pc ≠ .parked)
    (hold : old ≠ .interested ∧ old ≠ .lockNotify ∧ old ≠ .notify) :
    Waits (ReaderSlots.goto ⟨owner, local_, shared, initialized, gate, serial, s.waiters, s.waiting,
      s.pc, locals, shareds, writes⟩ t pc) :=
  h.goes hpc (.inl ⟨rfl, hlocked⟩) (.inl ⟨rfl, hwaits⟩) hgate hwait
    (fun hnow => absurd hnow hparked) hold

/-- The steps of a reader that waits. -/
theorem Waits.reader (h : Waits s) (hstep : step size s t = some u)
    (hpc : s.pc t = .interest ∨ s.pc t = .lockWaiters ∨ s.pc t = .wait ∨ s.pc t = .unlockWaiters ∨
      s.pc t = .uninterest) : Waits u := by
  unfold ReaderSlots.step at hstep
  rcases hpc with hpc | hpc | hpc | hpc | hpc <;> rw [hpc] at hstep
  · obtain rfl := Option.some.inj hstep
    exact h.goes hpc (.inl ⟨rfl, rfl⟩) (.inr (.inl ⟨rfl, rfl, rfl⟩)) .inl nofun nofun
      ⟨nofun, nofun, nofun⟩
  · dsimp only at hstep
    split at hstep
    · rename_i hfree
      obtain rfl := Option.some.inj hstep
      exact h.goes hpc (.inr (.inl ⟨hfree, rfl, rfl⟩)) (.inl ⟨rfl, rfl⟩) .inl nofun nofun
        ⟨nofun, nofun, nofun⟩
    · cases hstep
  · obtain rfl := Option.some.inj hstep
    exact h.goes hpc (.inr (.inr ⟨rfl, rfl, rfl⟩)) (.inl ⟨rfl, rfl⟩) .inl nofun (fun _ => rfl)
      ⟨nofun, nofun, nofun⟩
  · obtain rfl := Option.some.inj hstep
    exact h.goes hpc (.inr (.inr ⟨rfl, rfl, rfl⟩)) (.inl ⟨rfl, rfl⟩) .inl nofun nofun
      ⟨nofun, nofun, nofun⟩
  · obtain rfl := Option.some.inj hstep
    exact h.goes hpc (.inl ⟨rfl, rfl⟩) (.inr (.inr ⟨rfl, rfl, rfl⟩)) .inl nofun nofun
      ⟨nofun, nofun, nofun⟩

/-- Whoever is counted as waiting keeps the count from being zero. -/
theorem Waits.waiting_ne_zero (h : Waits s) {x : Nat} (hx : (s.pc x).waits = true) : s.waiting ≠ 0 := by
  obtain ⟨interested, hcard, hmem⟩ := h.waiting
  rw [← hcard]
  exact Finset.card_ne_zero_of_mem ((hmem x).mpr hx)

/-- The steps of a writer that has opened the gate. -/
theorem Waits.writer (h : Waits s) (hstep : step size s t = some u)
    (hpc : s.pc t = .interested ∨ s.pc t = .lockNotify ∨ s.pc t = .notify ∨ s.pc t = .unlockNotify) :
    Waits u := by
  unfold ReaderSlots.step at hstep
  rcases hpc with hpc | hpc | hpc | hpc <;> rw [hpc] at hstep
  · obtain rfl := Option.some.inj hstep
    have hsome : (∃ x, x ≠ t ∧ (s.pc x).waits = true) →
        (ReaderSlots.goto s t (if s.waiting = 0 then .unlockSerial else .lockNotify)).pc t =
          .lockNotify := by
      rintro ⟨x, -, hx⟩
      rw [goto_self, if_neg (h.waiting_ne_zero hx)]
    refine h.moved (t := t) {
      others := fun _ hx => goto_other _ _ hx
      locks := .inl ⟨rfl, by rw [goto_self, hpc]; split <;> rfl⟩
      waiting := .inl ⟨rfl, by rw [goto_self, hpc]; split <;> rfl⟩
      gate := .inl
      wait := by rw [goto_self]; split <;> exact nofun
      parked := by rw [goto_self]; split <;> exact nofun
      pendingWait := fun _ ⟨x, hx, hw⟩ => .inr (hsome ⟨x, hx, by rw [hw]; rfl⟩)
      pendingParked := fun _ ⟨x, hx, hp, _⟩ => .inr (.inl (hsome ⟨x, hx, by rw [hp]; rfl⟩)) }
  · dsimp only at hstep
    split at hstep
    · rename_i hfree
      obtain rfl := Option.some.inj hstep
      refine h.moved (t := t) {
        others := fun _ hx => goto_other _ _ hx
        locks := .inr (.inl ⟨hfree, rfl, by rw [goto_self]; rfl⟩)
        waiting := .inl ⟨rfl, by rw [goto_self, hpc]; rfl⟩
        gate := .inl
        wait := by rw [goto_self]; exact nofun
        parked := by rw [goto_self]; exact nofun
        pendingWait := fun _ ⟨x, hx, hw⟩ => ?_
        pendingParked := fun _ _ => .inr (.inr (goto_self ..)) }
      have hlocked := (h.waiters x).mpr (by rw [hw]; rfl)
      rw [hfree] at hlocked
      cases hlocked
    · cases hstep
  · obtain rfl := Option.some.inj hstep
    refine h.moved (t := t) {
      others := fun _ hx => notifyAll_other s hx
      locks := .inl ⟨rfl, by rw [notifyAll_self, hpc]; rfl⟩
      waiting := .inl ⟨rfl, by rw [notifyAll_self, hpc]; rfl⟩
      gate := .inl
      wait := by rw [notifyAll_self]; exact nofun
      parked := by rw [notifyAll_self]; exact nofun
      pendingWait := fun hpending => by rw [hpc] at hpending; rcases hpending with h | h <;> cases h
      pendingParked := fun _ ⟨x, hx, hp, hnow⟩ => ?_ }
    -- Nobody is parked any more.
    simp only [notifyAll, Function.update_of_ne hx, if_pos hp] at hnow
    cases hnow
  · obtain rfl := Option.some.inj hstep
    refine h.moved (t := t) {
      others := fun _ hx => goto_other _ _ hx
      locks := .inr (.inr ⟨by rw [hpc]; rfl, rfl, by rw [goto_self]; rfl⟩)
      waiting := .inl ⟨rfl, by rw [goto_self, hpc]; rfl⟩
      gate := .inl
      wait := by rw [goto_self]; exact nofun
      parked := by rw [goto_self]; exact nofun
      pendingWait := fun hpending => by rw [hpc] at hpending; rcases hpending with h | h <;> cases h
      pendingParked := fun hpending => by
        rw [hpc] at hpending
        rcases hpending with h | h | h <;> cases h }

theorem Waits.step (h : Waits s) (hstep : step size s t = some u) : Waits u := by
  have hcalm : ∀ {old pc : Pc} {owner local_ shared : Nat → Nat} {initialized : Nat → BitVec 64}
      {serial : Option Nat} {locals shareds writes : Nat → Nat}, s.pc t = old →
      pc.waitLocked = old.waitLocked ∧ pc.waits = old.waits ∧ pc ≠ .wait ∧ pc ≠ .parked →
      old ≠ .interested ∧ old ≠ .lockNotify ∧ old ≠ .notify →
      Waits (ReaderSlots.goto ⟨owner, local_, shared, initialized, s.gate, serial, s.waiters,
        s.waiting, s.pc, locals, shareds, writes⟩ t pc) := fun hpc hview hold =>
    h.goto hpc hview.1 hview.2.1 .inl (fun hnow => absurd hnow hview.2.2.1) hview.2.2.2 hold
  cases hpc : s.pc t with
  | interest => exact h.reader hstep (.inl hpc)
  | lockWaiters => exact h.reader hstep (.inr (.inl hpc))
  | wait => exact h.reader hstep (.inr (.inr (.inl hpc)))
  | unlockWaiters => exact h.reader hstep (.inr (.inr (.inr (.inl hpc))))
  | uninterest => exact h.reader hstep (.inr (.inr (.inr (.inr hpc))))
  | interested => exact h.writer hstep (.inl hpc)
  | lockNotify => exact h.writer hstep (.inr (.inl hpc))
  | notify => exact h.writer hstep (.inr (.inr (.inl hpc)))
  | unlockNotify => exact h.writer hstep (.inr (.inr (.inr hpc)))
  | idle | parked | outOfBounds =>
    unfold ReaderSlots.step at hstep
    rw [hpc] at hstep
    cases hstep
  | gateWaiting =>
    unfold ReaderSlots.step at hstep
    rw [hpc] at hstep
    obtain rfl := Option.some.inj hstep
    split <;> rename_i hgate
    · exact h.goto hpc rfl rfl .inl (fun _ => hgate) nofun ⟨nofun, nofun, nofun⟩
    · exact hcalm hpc ⟨rfl, rfl, nofun, nofun⟩ ⟨nofun, nofun, nofun⟩
  | close tried =>
    unfold ReaderSlots.step at hstep
    rw [hpc] at hstep
    obtain rfl := Option.some.inj hstep
    exact h.goto hpc rfl rfl (fun _ => .inl rfl) nofun nofun ⟨nofun, nofun, nofun⟩
  | open_ =>
    unfold ReaderSlots.step at hstep
    rw [hpc] at hstep
    obtain rfl := Option.some.inj hstep
    exact h.goto hpc rfl rfl (fun _ => .inr rfl) nofun nofun ⟨nofun, nofun, nofun⟩
  | initialized | store _ | unload _ | unlockSerial =>
    unfold ReaderSlots.step at hstep
    rw [hpc] at hstep
    obtain rfl := Option.some.inj hstep
    exact hcalm hpc ⟨rfl, rfl, nofun, nofun⟩ ⟨nofun, nofun, nofun⟩
  | unstore _ retry | sub retry =>
    unfold ReaderSlots.step at hstep
    rw [hpc] at hstep
    obtain rfl := Option.some.inj hstep
    cases retry <;> exact hcalm hpc ⟨rfl, rfl, nofun, nofun⟩ ⟨nofun, nofun, nofun⟩
  | owner =>
    unfold ReaderSlots.step at hstep
    rw [hpc] at hstep
    dsimp only at hstep
    split at hstep
    · obtain rfl := Option.some.inj hstep
      exact hcalm hpc ⟨rfl, rfl, nofun, nofun⟩ ⟨nofun, nofun, nofun⟩
    · split at hstep <;> obtain rfl := Option.some.inj hstep <;>
      exact hcalm hpc ⟨rfl, rfl, nofun, nofun⟩ ⟨nofun, nofun, nofun⟩
  | exchange | load | add | tryLockSerial =>
    unfold ReaderSlots.step at hstep
    rw [hpc] at hstep
    dsimp only at hstep
    split at hstep <;> obtain rfl := Option.some.inj hstep <;>
    exact hcalm hpc ⟨rfl, rfl, nofun, nofun⟩ ⟨nofun, nofun, nofun⟩
  | lockSerial =>
    unfold ReaderSlots.step at hstep
    rw [hpc] at hstep
    dsimp only at hstep
    split at hstep
    · obtain rfl := Option.some.inj hstep
      exact hcalm hpc ⟨rfl, rfl, nofun, nofun⟩ ⟨nofun, nofun, nofun⟩
    · cases hstep
  | gate shared =>
    unfold ReaderSlots.step at hstep
    rw [hpc] at hstep
    cases shared <;> dsimp only at hstep <;> split at hstep <;>
    obtain rfl := Option.some.inj hstep <;>
    exact hcalm hpc ⟨rfl, rfl, nofun, nofun⟩ ⟨nofun, nofun, nofun⟩
  | group tried group =>
    unfold ReaderSlots.step nextGroup at hstep
    rw [hpc] at hstep
    dsimp only at hstep
    split at hstep <;> obtain rfl := Option.some.inj hstep
    · split <;> exact hcalm hpc ⟨rfl, rfl, nofun, nofun⟩ ⟨nofun, nofun, nofun⟩
    · exact hcalm hpc ⟨rfl, rfl, nofun, nofun⟩ ⟨nofun, nofun, nofun⟩
  | slot tried group used shared =>
    unfold ReaderSlots.step nextGroup busy at hstep
    rw [hpc] at hstep
    cases shared with
    | false =>
      dsimp only at hstep
      split at hstep
      · obtain rfl := Option.some.inj hstep
        exact hcalm hpc ⟨rfl, rfl, nofun, nofun⟩ ⟨nofun, nofun, nofun⟩
      · split at hstep <;> obtain rfl := Option.some.inj hstep
        · exact hcalm hpc ⟨rfl, rfl, nofun, nofun⟩ ⟨nofun, nofun, nofun⟩
        · cases tried <;> exact hcalm hpc ⟨rfl, rfl, nofun, nofun⟩ ⟨nofun, nofun, nofun⟩
    | true =>
      dsimp only at hstep
      split at hstep
      · split at hstep <;> obtain rfl := Option.some.inj hstep
        · split <;> exact hcalm hpc ⟨rfl, rfl, nofun, nofun⟩ ⟨nofun, nofun, nofun⟩
        · exact hcalm hpc ⟨rfl, rfl, nofun, nofun⟩ ⟨nofun, nofun, nofun⟩
      · obtain rfl := Option.some.inj hstep
        cases tried <;> exact hcalm hpc ⟨rfl, rfl, nofun, nofun⟩ ⟨nofun, nofun, nofun⟩

theorem Waits.next (h : Waits s) {a : Action} (hnext : next size s a = some u) : Waits u := by
  cases a with
  | read t | write t | tryWrite t =>
    unfold ReaderSlots.next at hnext
    dsimp only at hnext
    split at hnext
    · rename_i hidle
      obtain rfl := Option.some.inj hnext
      exact h.goto hidle rfl rfl .inl nofun nofun ⟨nofun, nofun, nofun⟩
    · cases hnext
  | dropRead t shared =>
    cases shared <;> unfold ReaderSlots.next at hnext <;> dsimp only at hnext <;> split at hnext
    · rename_i hheld
      obtain rfl := Option.some.inj hnext
      exact h.goto hheld.1 rfl rfl .inl nofun nofun ⟨nofun, nofun, nofun⟩
    · cases hnext
    · rename_i hheld
      obtain rfl := Option.some.inj hnext
      exact h.goto hheld.1 rfl rfl .inl nofun nofun ⟨nofun, nofun, nofun⟩
    · cases hnext
  | dropWrite t =>
    unfold ReaderSlots.next at hnext
    dsimp only at hnext
    split at hnext
    · rename_i hheld
      obtain rfl := Option.some.inj hnext
      exact h.goto hheld.1 rfl rfl .inl nofun nofun ⟨nofun, nofun, nofun⟩
    · cases hnext
  | step t => exact h.step hnext

/-! ## Runs -/

structure Safe (size : Nat) (s : State) : Prop where
  slots : Slots size s
  writers : Writers s
  excluded : Excluded size s
  waits : Waits s

theorem Safe.next (h : Safe size s) {a : Action} (hnext : next size s a = some u) : Safe size u where
  slots := h.slots.next hnext
  writers := h.writers.next hnext
  excluded := h.excluded.next h.slots h.writers hnext
  waits := h.waits.next hnext

theorem Safe.init (size : Nat) : Safe size init where
  slots := Slots.init size
  writers := Writers.init
  excluded :=
    { written := fun _ hw => absurd hw (Nat.lt_irrefl 0)
      left := fun _ _ _ _ => trivial }
  waits :=
    { waiters := fun _ => ⟨nofun, nofun⟩
      waiting := ⟨∅, rfl, fun _ => ⟨fun hin => absurd hin (Finset.notMem_empty _), nofun⟩⟩
      wait := fun _ => nofun
      parked := fun _ => nofun }

/-- What holds of the lock in every state. -/
structure Sound (size : Nat) (s : State) : Prop where
  readers : ∀ w t, 0 < s.writes w → s.locals t = 0 ∧ s.shareds t = 0
  writers : ∀ w x, 0 < s.writes w → 0 < s.writes x → x = w ∧ s.writes w = 1
  /-- A count is at least one whenever it is about to be counted down. -/
  unload : ∀ t retry, s.pc t = .unload retry → 0 < s.local_ (index size t)
  unstore : ∀ t count retry, s.pc t = .unstore count retry →
    0 < count ∧ s.local_ (index size t) = count
  sub : ∀ t retry, s.pc t = .sub retry → 0 < s.shared (index size t)
  bitmap : ∀ i, s.local_ i ≠ 0 ∨ s.shared i ≠ 0 → s.bit i = true
  inBounds : ∀ t, s.pc t ≠ .outOfBounds
  /-- The gate is open before `try_write` closes it, and after it has given up. -/
  tried : ∀ t, s.pc t = .close true → s.gate = false
  gaveUp : ∀ t, s.pc t = .interested ∨ s.pc t = .lockNotify ∨ s.pc t = .notify ∨
    s.pc t = .unlockNotify ∨ s.pc t = .unlockSerial → s.gate = false
  /-- Without the mutex it does not touch the gate. -/
  refused : ∀ t u, s.pc t = .tryLockSerial → s.serial ≠ none → step size s t = some u →
    u.gate = s.gate ∧ u.pc t = .idle
  parked : ∀ t, s.pc t = .parked → s.gate = false → ∃ w,
    s.pc w = .interested ∧ s.waiting ≠ 0 ∨ s.pc w = .lockNotify ∨ s.pc w = .notify

/-- The holder of the mutex has not closed the gate. -/
theorem Writers.open_of (h : Writers s) (hserial : (s.pc t).serial = true)
    (hshut : (s.pc t).shut = false) : s.gate = false := by
  cases hgate : s.gate with
  | false => rfl
  | true =>
    obtain ⟨x, hx⟩ := h.gate.mp hgate
    obtain rfl := h.only (t := t) (.inr hserial) (State.writer_of_shuts hx)
    rcases hx with hpos | hnow
    · have hnone := h.no_guard hserial
      omega
    · rw [hshut] at hnow
      cases hnow

theorem Slots.owned (h : Slots size s) (hheld : (s.pc t).localHeld = 1) :
    s.local_ (index size t) = s.locals t + 1 := by
  have howner : s.owner (index size t) = identity t := by
    by_contra hnot
    have hzero := (h.foreign t hnot).2
    omega
  have hlocals := h.locals t howner
  omega

theorem Safe.sound (h : Safe size s) : Sound size s where
  readers := fun w t hw => ⟨h.excluded.written w hw t false, h.excluded.written w hw t true⟩
  writers := fun w x hw hx => by
    have honce := h.writers.once w
    exact ⟨h.writers.only (.inl hw) (.inl hx), by omega⟩
  unload := fun t retry hpc => by
    rw [h.slots.owned (t := t) (by rw [hpc]; rfl)]
    exact Nat.succ_pos _
  unstore := fun t count retry hpc => by
    have hknows := h.slots.knows t
    rw [hpc] at hknows
    have hcount : s.local_ (index size t) = count := hknows
    have hheld := h.slots.owned (t := t) (by rw [hpc]; rfl)
    exact ⟨by omega, hcount⟩
  sub := fun t retry hpc =>
    Nat.pos_of_ne_zero (h.slots.shared_held (t := t) (by rw [hpc]; exact Nat.succ_pos _)).1
  bitmap := fun i hcount => h.slots.bits i fun hnone =>
    hcount.elim (fun hlocal => hlocal (h.slots.unowned i hnone).1)
      fun hshared => hshared (h.slots.unowned i hnone).2
  inBounds := fun t hpc => by
    have hknows := h.slots.knows t
    rw [hpc] at hknows
    exact hknows
  tried := fun t hpc => h.writers.open_of (t := t) (by rw [hpc]; rfl) (by rw [hpc]; rfl)
  gaveUp := fun t hpc => by
    rcases hpc with hpc | hpc | hpc | hpc | hpc <;>
    exact h.writers.open_of (t := t) (by rw [hpc]; rfl) (by rw [hpc]; rfl)
  refused := fun t u hpc hserial hstep => by
    unfold step at hstep
    rw [hpc] at hstep
    dsimp only at hstep
    rw [if_neg hserial] at hstep
    obtain rfl := Option.some.inj hstep
    exact ⟨rfl, goto_self ..⟩
  parked := fun t hpc hgate => by
    rcases h.waits.parked t hpc with hclosed | ⟨w, hw⟩
    · rw [hgate] at hclosed
      cases hclosed
    · refine ⟨w, hw.imp (fun hinterested => ⟨hinterested, ?_⟩) id⟩
      exact h.waits.waiting_ne_zero (x := t) (by rw [hpc]; rfl)

theorem readers_excluded {as : List Action} (hexec : Run.exec (next size) init as = some s) :
    Sound size s :=
  (Run.exec_invariant (I := Safe size) (fun _ _ _ hs hn => hs.next hn) (Safe.init size) hexec).sound

/-- Two threads read in one slot, and a third tries to write. -/
def sharedSlot : List Action :=
  [.read 0, .step 0, .step 0, .step 0, .step 0, .step 0, .step 0, .read 1, .step 1, .step 1, .step 1,
    .tryWrite 2, .step 2, .step 2, .step 2, .step 2, .step 2, .step 2, .step 2]

theorem readers_excluded_shared :
    (Run.exec (next 0) init sharedSlot).map (fun s => (s.locals 0, s.shareds 1, s.writes 2, s.gate)) =
        some (1, 1, 0, false) ∧
      ∀ s, Run.exec (next 0) init sharedSlot = some s → Sound 0 s :=
  ⟨by decide +kernel, fun _ hexec => readers_excluded hexec⟩

end ReaderSlots

end Amalgam
