import Amalgam.Memory.Supplied

/-!
# Amalgam — what a supplied storage may return, and what it gives back

A record that carries the current generation was prepared after the last advance of its epoch, so a
read returns nothing that was prepared before an advance that precedes the read, however late the
record reached the provider (`supplied_reads_are_current`). Of an exhausted epoch nothing is
returned any more (`exhausted_epoch_serves_nothing`). What the provider took is in one place: with
the provider, in the hands of the call it was returned to, or with the observer
(`supplied_records_retire_once`).
-/

set_option linter.unusedSectionVars false

namespace Amalgam

namespace Supplied

open EvictionStream (MemoryEvictionReason)
open Memory (RetirementReason MemoryAdmission MemoryWriteEvent)

section

variable {K V : Type}

def Outcome.found : Outcome V → Option (Entry V)
  | .entry found => found
  | _ => none

namespace Pc

/-- The records removed by the call that are not reported yet. -/
def hand : Pc K V → List (MemoryRecord K V)
  | .explain _ removed => [removed]
  | .retiring records _ => records.map Prod.fst
  | _ => []

/-- The record that is on its way to the provider. -/
def candidate : Pc K V → Option (MemoryRecord K V)
  | .offer record => some record
  | _ => none

/-- The record that may still be returned. -/
def read : Pc K V → Option (MemoryRecord K V)
  | .generation record | .representation record => some record
  | _ => none

def barrier : Pc K V → Option MemoryGeneration
  | .clear barrier => some barrier
  | _ => none

/-- The entry that the call returns. -/
def answer : Pc K V → Option (Entry V)
  | .retiring _ outcome | .done outcome => outcome.found
  | _ => none

/-- A step to here gives no record to read, to offer or to report. -/
def plain : Pc K V → Bool
  | .start | .lookup | .discard _ | .done _ => true
  | _ => false

end Pc

theorem mem_kept {gone : Gone} {held : List (MemoryRecord K V)} {r : MemoryRecord K V} :
    r ∈ kept gone held ↔ r ∈ held ∧ (gone r.serial).isNone := by
  simp only [kept, List.mem_filter]

theorem mem_without {held : List (MemoryRecord K V)} {r other : MemoryRecord K V} :
    other ∈ without held r ↔ other ∈ held ∧ other.serial ≠ r.serial := by
  simp only [without, List.mem_filter, decide_eq_true_eq]

variable {t : TaskId} {sh sh' : Shared K V} {task : Task K V}

/-! ## Generations -/

/-- No advance of its epoch came after the preparation of the record. -/
def Fresh (history : List (Event K V)) (r : MemoryRecord K V) : Prop :=
  ∀ later u earlier, history = later ++ .advanced r.generation.epoch u :: earlier →
    .prepared r ∉ earlier

/-- An advance that came after the preparation of the record came after the read began too. -/
def ReadAfter (history : List (Event K V)) (t : TaskId) (r : MemoryRecord K V) : Prop :=
  ∀ later u earlier, history = later ++ .advanced r.generation.epoch u :: earlier →
    .prepared r ∈ earlier → .began t ∈ earlier

/-- The barrier is of an advance by the task, and nothing prepared since has a lower value. -/
def Issued (history : List (Event K V)) (t : TaskId) (b : MemoryGeneration) : Prop :=
  ∃ later earlier, history = later ++ .advanced b.epoch t :: earlier ∧
    ∀ r, .prepared r ∈ later → r.generation.epoch = b.epoch → b.value ≤ r.generation.value

structure SharedInv (sh : Shared K V) : Prop where
  serial : ∀ r, .prepared r ∈ sh.history → r.serial < sh.nextSerial
  held : ∀ r ∈ sh.held, .prepared r ∈ sh.history
  value : ∀ r, .prepared r ∈ sh.history → r.generation.value ≠ 0 ∧
    (sh.world.epochs r.generation.epoch = 0 ∨
      r.generation.value ≤ sh.world.epochs r.generation.epoch)
  fresh : ∀ r, .prepared r ∈ sh.history →
    r.generation.value = sh.world.epochs r.generation.epoch → Fresh sh.history r

structure TaskInv (sh : Shared K V) (t : TaskId) (task : Task K V) : Prop where
  began : .began t ∈ sh.history
  candidate : ∀ r, task.pc.candidate = some r → .prepared r ∈ sh.history
  read : ∀ r, task.pc.read = some r → .prepared r ∈ sh.history ∧
    (∃ mode now, task.op = .read mode r.key now) ∧ r.generation.epoch = task.cache.epoch
  checked : ∀ r, task.pc = .representation r → ReadAfter sh.history t r
  barrier : ∀ b, task.pc.barrier = some b → b.epoch = task.cache.epoch ∧
    (sh.world.epochs b.epoch = 0 ∨ b.value ≤ sh.world.epochs b.epoch) ∧ Issued sh.history t b
  answer : ∀ mode key now found, task.op = .read mode key now → task.pc.answer = some found →
    ∃ r, r.entry = found ∧ r.key = key ∧ r.generation.epoch = task.cache.epoch ∧
      .prepared r ∈ sh.history ∧ ReadAfter sh.history t r

theorem Fresh.readAfter {history : List (Event K V)} {r : MemoryRecord K V} (h : Fresh history r)
    (t : TaskId) : ReadAfter history t r :=
  fun later u earlier heq hprepared => absurd hprepared (h later u earlier heq)

theorem Fresh.cons {history : List (Event K V)} {r : MemoryRecord K V} {e : Event K V}
    (h : Fresh history r) (he : ∀ u, e ≠ .advanced r.generation.epoch u) :
    Fresh (e :: history) r := by
  intro later u earlier heq
  rcases History.split_cons heq with ⟨-, rfl, -⟩ | ⟨rest, -, heq⟩
  · exact absurd rfl (he u)
  · exact h rest u earlier heq

theorem ReadAfter.cons {history : List (Event K V)} {r : MemoryRecord K V}
    (h : ReadAfter history t r) (hbegan : .began t ∈ history) (e : Event K V) :
    ReadAfter (e :: history) t r := by
  intro later u earlier heq hprepared
  rcases History.split_cons heq with ⟨-, -, rfl⟩ | ⟨rest, -, heq⟩
  · exact hbegan
  · exact h rest u earlier heq hprepared

theorem Issued.cons {history : List (Event K V)} {b : MemoryGeneration} {e : Event K V}
    (h : Issued history t b)
    (he : ∀ r, e = .prepared r → r.generation.epoch = b.epoch → b.value ≤ r.generation.value) :
    Issued (e :: history) t b := by
  obtain ⟨later, earlier, rfl, hlater⟩ := h
  refine ⟨e :: later, earlier, rfl, fun r hr hepoch => ?_⟩
  rcases List.mem_cons.mp hr with heq | hr
  · exact he r heq.symm hepoch
  · exact hlater r hr hepoch

/-- What happens to the shared state in a step that prepares nothing and advances no epoch. -/
structure Quiet (sh sh' : Shared K V) : Prop where
  epochs : sh'.world.epochs = sh.world.epochs
  nextSerial : sh'.nextSerial = sh.nextSerial
  history : sh'.history = sh.history ∨ ∃ e, sh'.history = e :: sh.history ∧
    (∀ r, e ≠ .prepared r) ∧ ∀ epoch u, e ≠ .advanced epoch u

namespace Quiet

theorem prepared (h : Quiet sh sh') (r : MemoryRecord K V) :
    .prepared r ∈ sh'.history ↔ .prepared r ∈ sh.history := by
  rcases h.history with heq | ⟨e, heq, hprepared, -⟩
  · rw [heq]
  · rw [heq, List.mem_cons]
    exact ⟨fun h => h.resolve_left fun he => hprepared r he.symm, .inr⟩

theorem shared (h : Quiet sh sh') (hinv : SharedInv sh)
    (hheld : ∀ r ∈ sh'.held, .prepared r ∈ sh.history) : SharedInv sh' where
  serial := fun r hr => h.nextSerial ▸ hinv.serial r ((h.prepared r).mp hr)
  held := fun r hr => (h.prepared r).mpr (hheld r hr)
  value := fun r hr => h.epochs ▸ hinv.value r ((h.prepared r).mp hr)
  fresh := fun r hr hvalue => by
    have hfresh := hinv.fresh r ((h.prepared r).mp hr) (h.epochs ▸ hvalue)
    rcases h.history with heq | ⟨e, heq, -, hadvanced⟩
    · rw [heq]
      exact hfresh
    · rw [heq]
      exact hfresh.cons (hadvanced _)

end Quiet

/-- What every step keeps for a task that does not move. -/
structure Later (sh sh' : Shared K V) : Prop where
  history : sh'.history = sh.history ∨ ∃ e, sh'.history = e :: sh.history
  barrier : ∀ t (b : MemoryGeneration),
    (sh.world.epochs b.epoch = 0 ∨ b.value ≤ sh.world.epochs b.epoch) → Issued sh.history t b →
    (sh'.world.epochs b.epoch = 0 ∨ b.value ≤ sh'.world.epochs b.epoch) ∧ Issued sh'.history t b

namespace Later

theorem mem (h : Later sh sh') {e : Event K V} (he : e ∈ sh.history) : e ∈ sh'.history := by
  rcases h.history with heq | ⟨x, heq⟩ <;> rw [heq]
  · exact he
  · exact List.mem_cons_of_mem x he

theorem readAfter (h : Later sh sh') {r : MemoryRecord K V} (hbegan : .began t ∈ sh.history)
    (hr : ReadAfter sh.history t r) : ReadAfter sh'.history t r := by
  rcases h.history with heq | ⟨x, heq⟩ <;> rw [heq]
  · exact hr
  · exact hr.cons hbegan x

theorem keeps (h : Later sh sh') (ht : TaskInv sh t task) : TaskInv sh' t task where
  began := h.mem ht.began
  candidate := fun r hr => h.mem (ht.candidate r hr)
  read := fun r hr => ⟨h.mem (ht.read r hr).1, (ht.read r hr).2⟩
  checked := fun r hr => h.readAfter ht.began (ht.checked r hr)
  barrier := fun b hb =>
    have hb := ht.barrier b hb
    ⟨hb.1, h.barrier t b hb.2.1 hb.2.2⟩
  answer := fun mode key now found hop hanswer =>
    have ⟨r, hentry, hkey, hepoch, hprepared, hafter⟩ := ht.answer mode key now found hop hanswer
    ⟨r, hentry, hkey, hepoch, h.mem hprepared, h.readAfter ht.began hafter⟩

end Later

theorem Quiet.later (h : Quiet sh sh') : Later sh sh' where
  history := h.history.imp_right fun ⟨e, heq, _⟩ => ⟨e, heq⟩
  barrier := fun t b hvalue hissued => by
    refine ⟨h.epochs ▸ hvalue, ?_⟩
    rcases h.history with heq | ⟨e, heq, hprepared, -⟩
    · rw [heq]
      exact hissued
    · rw [heq]
      exact hissued.cons fun r he => absurd he (hprepared r)

/-! ## Steps -/

/-- What one step of a task does. -/
inductive Move [DecidableEq K] (t : TaskId) (sh : Shared K V) (task : Task K V) :
    Pc K V → Shared K V → Prop
  | quiet {pc' : Pc K V} (hhand : task.pc.hand = []) (hplain : pc'.plain = true)
      (hanswer : pc'.answer = none) : Move t sh task pc' sh
  | found {record : MemoryRecord K V} {mode : ReadMode} {now : Timestamp}
      (hop : task.op = .read mode record.key now) (hhand : task.pc.hand = [])
      (hheld : record ∈ sh.held) (hepoch : record.generation.epoch = task.cache.epoch) :
      Move t sh task (.generation record) sh
  | checked {record : MemoryRecord K V} (hpc : task.pc = .generation record)
      (hcurrent : record.generation.isCurrent sh.world = true) :
      Move t sh task (.representation record) sh
  | served {record : MemoryRecord K V} (hpc : task.pc = .representation record) :
      Move t sh task (.done (.entry (some record.entry))) sh
  | taken {record : MemoryRecord K V} {pc' : Pc K V} (hhand : task.pc.hand = [])
      (hfrom : task.pc.barrier = none)
      (hheld : record ∈ sh.held) (hhand' : pc'.hand = [record]) (hread : pc'.read = none)
      (hcandidate : pc'.candidate = none) (hbarrier : pc'.barrier = none)
      (hanswer : ∀ mode key now, task.op = .read mode key now → pc'.answer = none) :
      Move t sh task pc' { sh with held := without sh.held record }
  | explained {record removed : MemoryRecord K V} {reason : RetirementReason}
      (hpc : task.pc = .explain record removed) :
      Move t sh task (.retiring [(removed, reason)] (.entry none)) sh
  | prepared {record : MemoryRecord K V} (hhand : task.pc.hand = [])
      (hserial : record.serial = sh.nextSerial)
      (hcurrent : sh.world.current task.cache.epoch = some record.generation) :
      Move t sh task (.offer record)
        { sh with nextSerial := sh.nextSerial + 1, history := .prepared record :: sh.history }
  | wrote {candidate : MemoryRecord K V} {write : Write} {now : Timestamp}
      {condition : MemoryCondition V} {event : MemoryWriteEvent} {held : List (MemoryRecord K V)}
      {removed : List (MemoryRecord K V × RetirementReason)} {admission : MemoryAdmission}
      (hpc : task.pc = .offer candidate)
      (haccepted : write.accepted sh.world now sh.held candidate condition event =
        some (held, removed, admission)) :
      Move t sh task (.retiring removed (.admission admission))
        { sh with
          held
          history := if admission.stored then .placed candidate :: sh.history else sh.history }
  | advanced {pc' : Pc K V} (hhand : task.pc.hand = [])
      (hvalue : sh.world.epochs task.cache.epoch ≠ 0)
      (hpc' : pc' = .done (.failed .generationExhausted) ∨
        ∃ barrier, (sh.world.advance task.cache.epoch).2 = some barrier ∧ pc' = .clear barrier)
      (hop : task.op = .invalidate) :
      Move t sh task pc'
        { sh with
          world := (sh.world.advance task.cache.epoch).1
          history := .advanced task.cache.epoch t :: sh.history }
  | cleared {barrier : MemoryGeneration} {gone : Gone} (hpc : task.pc = .clear barrier)
      (hselected : ∀ r ∈ sh.held, (gone r.serial).isSome → barrier.precedes r = true) :
      Move t sh task
        (.retiring ((sh.held.filter fun r => (gone r.serial).isSome).map fun r => (r, .explicit))
          .finished)
        { sh with held := kept gone sh.held }
  | maintained {gone : Gone} (hhand : task.pc.hand = []) (hfrom : task.pc.barrier = none) :
      Move t sh task (.retiring (lost gone sh.held) .finished) { sh with held := kept gone sh.held }
  | retired {record : MemoryRecord K V} {reason : RetirementReason}
      {records : List (MemoryRecord K V × RetirementReason)} {outcome : Outcome V}
      (hpc : task.pc = .retiring ((record, reason) :: records) outcome) :
      Move t sh task (.retiring records outcome)
        { sh with history := .retired record reason :: sh.history }
  | reported {outcome : Outcome V} (hpc : task.pc = .retiring [] outcome) :
      Move t sh task (.done outcome) sh

variable [DecidableEq K] {input : Input}

theorem move_of_stepRead {mode : ReadMode} {key : K} {now : Timestamp} {pc' : Pc K V}
    (hop : task.op = .read mode key now)
    (h : stepRead task.cache mode key now sh input task.pc = some (pc', sh')) :
    Move t sh task pc' sh' := by
  obtain ⟨cache, op, pc⟩ := task
  cases pc with
  | start =>
    simp only [stepRead] at h
    split at h
    · cases h
      exact .quiet rfl rfl rfl
    · cases h
      exact .quiet rfl rfl rfl
  | lookup =>
    simp only [stepRead] at h
    split at h
    · cases h
      exact .quiet rfl rfl rfl
    · cases h
      exact .quiet rfl rfl rfl
    · split at h
      · cases h
      · rename_i record hrecord
        split at h
        · cases h
          exact .quiet rfl rfl rfl
        · rename_i hvalid
          cases h
          unfold validateRecord at hvalid
          split at hvalid
          · cases hvalid
          · rename_i hkey
            split at hvalid
            · cases hvalid
            · rename_i hepoch
              obtain rfl := not_not.mp hkey
              exact .found hop rfl (List.mem_of_find?_eq_some hrecord) (not_not.mp hepoch)
    · cases h
  | generation record =>
    simp only [stepRead] at h
    split at h
    · rename_i hcurrent
      cases h
      exact .checked rfl hcurrent
    · split at h <;> cases h
      · exact .quiet rfl rfl rfl
      · exact .quiet rfl rfl rfl
  | representation record =>
    simp only [stepRead] at h
    split at h
    · cases h
      exact .served rfl
    · split at h <;> cases h
      · exact .quiet rfl rfl rfl
      · exact .quiet rfl rfl rfl
  | discard record =>
    simp only [stepRead] at h
    split at h
    · cases h
      exact .quiet rfl rfl rfl
    · cases h
      exact .quiet rfl rfl rfl
    · obtain ⟨removed, hremoved, heq⟩ := Option.map_eq_some_iff.mp h
      cases heq
      exact .taken rfl rfl (List.mem_of_find?_eq_some hremoved) rfl rfl rfl rfl fun _ _ _ _ => rfl
    · cases h
  | explain record removed =>
    cases h
    exact .explained rfl
  | offer | clear | retiring | done => cases h

theorem move_of_stepInsert {key : K} {entry : Entry V} {now : Timestamp}
    {condition : MemoryCondition V} {event : MemoryWriteEvent} {pc' : Pc K V}
    (h : stepInsert task.cache key entry now condition event sh input task.pc = some (pc', sh')) :
    Move t sh task pc' sh' := by
  obtain ⟨cache, op, pc⟩ := task
  cases pc with
  | start =>
    simp only [stepInsert] at h
    split at h
    · cases h
      exact .quiet rfl rfl rfl
    · split at h
      · cases h
        exact .quiet rfl rfl rfl
      · rename_i generation hcurrent
        cases h
        exact .prepared rfl rfl hcurrent
  | offer candidate =>
    simp only [stepInsert] at h
    split at h
    · cases h
      exact .quiet rfl rfl rfl
    · obtain ⟨⟨held, removed, admission⟩, haccepted, heq⟩ := Option.map_eq_some_iff.mp h
      cases heq
      exact .wrote rfl haccepted
    · cases h
  | _ => cases h

theorem move_of_stepRemove {key : K} {expected : Option (Entry V)} {pc' : Pc K V}
    (hop : task.op = .remove key expected)
    (h : stepRemove key expected sh input task.pc = some (pc', sh')) :
    Move t sh task pc' sh' := by
  obtain ⟨cache, op, pc⟩ := task
  obtain rfl : op = .remove key expected := hop
  cases pc with
  | start =>
    simp only [stepRemove] at h
    split at h
    · cases h
      exact .quiet rfl rfl rfl
    · cases h
      exact .quiet rfl rfl rfl
    · obtain ⟨removed, hremoved, heq⟩ := Option.map_eq_some_iff.mp h
      cases heq
      exact .taken rfl rfl (List.mem_of_find?_eq_some hremoved) rfl rfl rfl rfl
        fun _ _ _ hop => by cases hop
    · cases h
  | _ => cases h

theorem move_of_stepInvalidate {pc' : Pc K V} (hop : task.op = .invalidate)
    (h : stepInvalidate t task.cache sh input task.pc = some (pc', sh')) :
    Move t sh task pc' sh' := by
  obtain ⟨cache, op, pc⟩ := task
  cases pc with
  | start =>
    simp only [stepInvalidate] at h
    split at h
    · cases h
      exact .quiet rfl rfl rfl
    · rename_i hvalue
      split at h
      · cases h
        exact .advanced rfl hvalue (.inl rfl) hop
      · rename_i barrier hbarrier
        cases h
        exact .advanced rfl hvalue (.inr ⟨barrier, hbarrier, rfl⟩) hop
  | clear barrier =>
    simp only [stepInvalidate] at h
    split at h
    · cases h
      exact .quiet rfl rfl rfl
    · split at h
      · rename_i hselected
        cases h
        refine .cleared rfl fun r hr hgone => ?_
        have hr := List.all_eq_true.mp hselected r hr
        rw [Bool.or_eq_true] at hr
        rcases hr with hnone | hprecedes
        · rw [Option.isNone_iff_eq_none.mp hnone] at hgone
          cases hgone
        · exact hprecedes
      · cases h
    · cases h
  | _ => cases h

theorem move_of_stepMaintain {pc' : Pc K V}
    (h : stepMaintain sh input task.pc = some (pc', sh')) : Move t sh task pc' sh' := by
  obtain ⟨cache, op, pc⟩ := task
  cases pc with
  | start =>
    simp only [stepMaintain] at h
    split at h
    · cases h
      exact .quiet rfl rfl rfl
    · cases h
      exact .maintained rfl rfl
    · cases h
  | _ => cases h

theorem move_of_step {task' : Task K V} (h : task.step t sh input = some (task', sh')) :
    task'.cache = task.cache ∧ task'.op = task.op ∧ Move t sh task task'.pc sh' := by
  unfold Task.step at h
  split at h
  · rename_i outcome hpc
    cases h
    exact ⟨rfl, rfl, .reported hpc⟩
  · rename_i r reason records outcome hpc
    cases h
    exact ⟨rfl, rfl, .retired hpc⟩
  · rename_i pc hpc
    obtain ⟨⟨pc', sh''⟩, hop, heq⟩ := Option.map_eq_some_iff.mp h
    obtain ⟨rfl, rfl⟩ := Prod.mk.inj heq
    refine ⟨rfl, rfl, ?_⟩
    split at hop
    · rename_i hread
      exact move_of_stepRead hread hop
    · exact move_of_stepInsert hop
    · rename_i hremove
      exact move_of_stepRemove hremove hop
    · rename_i hinvalidate
      exact move_of_stepInvalidate hinvalidate hop
    · exact move_of_stepMaintain hop

theorem mem_of_accepted {write : Write} {w : World} {now : Timestamp}
    {held held' : List (MemoryRecord K V)} {candidate : MemoryRecord K V}
    {condition : MemoryCondition V} {event : MemoryWriteEvent}
    {removed : List (MemoryRecord K V × RetirementReason)} {admission : MemoryAdmission}
    (h : write.accepted w now held candidate condition event = some (held', removed, admission))
    {r : MemoryRecord K V} (hr : r ∈ held') : r ∈ held ∨ r = candidate := by
  cases write with
  | admitted gone =>
    simp only [Write.accepted] at h
    split at h
    · cases h
      rcases List.mem_cons.mp hr with rfl | hr
      · exact .inr rfl
      · exact .inl (mem_kept.mp hr).1
    · cases h
  | replaced gone =>
    simp only [Write.accepted] at h
    split at h
    · cases h
    · split at h
      · cases h
        rcases List.mem_cons.mp hr with rfl | hr
        · exact .inr rfl
        · exact .inl (List.mem_filter.mp (mem_kept.mp hr).1).1
      · cases h
  | rejected reason gone =>
    cases h
    exact .inl (mem_kept.mp hr).1

theorem current_eq_some {w : World} {epoch : EpochId} {g : MemoryGeneration}
    (h : w.current epoch = some g) : g = ⟨epoch, w.epochs epoch⟩ ∧ w.epochs epoch ≠ 0 := by
  unfold World.current at h
  split at h
  · cases h
  · rename_i hvalue
    exact ⟨(Option.some.inj h).symm, hvalue⟩

theorem following_cases {value : Nat} : following value = 0 ∨ following value = value + 1 := by
  unfold following
  split
  · exact .inl rfl
  · exact .inr rfl

/-- An advance exhausts the epoch or moves it by one, and its barrier has the new value. -/
theorem advance_spec {w : World} {epoch : EpochId} (h : w.epochs epoch ≠ 0) :
    (∀ other, other ≠ epoch → (w.advance epoch).1.epochs other = w.epochs other) ∧
      ((w.advance epoch).1.epochs epoch = 0 ∨
        (w.advance epoch).1.epochs epoch = w.epochs epoch + 1) ∧
      ∀ b, (w.advance epoch).2 = some b →
        b.epoch = epoch ∧ b.value = (w.advance epoch).1.epochs epoch := by
  unfold World.advance
  rw [if_neg h]
  have hself := Function.update_self epoch (following (w.epochs epoch)) w.epochs
  refine ⟨fun other hne => Function.update_of_ne hne _ _,
    following_cases.imp hself.trans hself.trans, fun b hb => ?_⟩
  dsimp only at hb
  split at hb
  · cases hb
  · cases hb
    exact ⟨rfl, hself.symm⟩

/-- After an advance no stamp of its epoch is current, and barriers stay below the epoch. -/
theorem SharedInv.advanced {epoch : EpochId} (hinv : SharedInv sh)
    (hvalue : sh.world.epochs epoch ≠ 0) (u : TaskId) :
    SharedInv { sh with
        world := (sh.world.advance epoch).1
        history := .advanced epoch u :: sh.history } ∧
      Later sh { sh with
        world := (sh.world.advance epoch).1
        history := .advanced epoch u :: sh.history } := by
  obtain ⟨hothers, hmoved, -⟩ := advance_spec hvalue
  have hold {r : MemoryRecord K V} (hr : .prepared r ∈ .advanced epoch u :: sh.history) :
      .prepared r ∈ sh.history := (List.mem_cons.mp hr).resolve_left fun h => by cases h
  have hbelow (g : MemoryGeneration)
      (h : sh.world.epochs g.epoch = 0 ∨ g.value ≤ sh.world.epochs g.epoch) :
      (sh.world.advance epoch).1.epochs g.epoch = 0 ∨
        g.value ≤ (sh.world.advance epoch).1.epochs g.epoch := by
    by_cases hepoch : g.epoch = epoch
    · rw [hepoch] at h ⊢
      have := h.resolve_left hvalue
      omega
    · rw [hothers _ hepoch]
      exact h
  refine ⟨⟨fun r hr => hinv.serial r (hold hr), fun r hr => List.mem_cons_of_mem _ (hinv.held r hr),
    fun r hr => ⟨(hinv.value r (hold hr)).1, hbelow _ (hinv.value r (hold hr)).2⟩,
    fun r hr hcurrent => ?_⟩, .inr ⟨_, rfl⟩, fun t b hb hissued => ⟨hbelow b hb, ?_⟩⟩
  · obtain ⟨hne, hle⟩ := hinv.value r (hold hr)
    by_cases hepoch : r.generation.epoch = epoch
    · -- The stamp was not above the old value.
      change r.generation.value = (sh.world.advance epoch).1.epochs r.generation.epoch at hcurrent
      rw [hepoch] at hle hcurrent
      have := hle.resolve_left hvalue
      omega
    · refine (hinv.fresh r (hold hr) (hcurrent.trans (hothers _ hepoch))).cons fun v heq => ?_
      cases heq
      exact hepoch rfl
  · exact hissued.cons fun r heq => by cases heq

theorem SharedInv.prepared {record : MemoryRecord K V} {epoch : EpochId} (hinv : SharedInv sh)
    (hserial : record.serial = sh.nextSerial)
    (hcurrent : sh.world.current epoch = some record.generation) :
    SharedInv { sh with
        nextSerial := sh.nextSerial + 1
        history := .prepared record :: sh.history } ∧
      Later sh { sh with
        nextSerial := sh.nextSerial + 1
        history := .prepared record :: sh.history } := by
  obtain ⟨hgeneration, hvalue⟩ := current_eq_some hcurrent
  have hstamp : record.generation.value = sh.world.epochs record.generation.epoch := by
    rw [hgeneration]
  have hnew : .prepared record ∉ sh.history := fun h =>
    absurd (hinv.serial record h) (hserial ▸ Nat.lt_irrefl _)
  have hcases {r : MemoryRecord K V} (hr : .prepared r ∈ Event.prepared record :: sh.history) :
      r = record ∨ .prepared r ∈ sh.history :=
    (List.mem_cons.mp hr).imp_left fun h => by cases h; rfl
  refine ⟨⟨fun r hr => ?_, fun r hr => List.mem_cons_of_mem _ (hinv.held r hr), fun r hr => ?_,
    fun r hr hr' => ?_⟩, .inr ⟨_, rfl⟩,
    fun t b hb hissued => ⟨hb, hissued.cons fun r heq hepoch => ?_⟩⟩
  · rcases hcases hr with rfl | hr
    · exact hserial ▸ Nat.lt_succ_self _
    · exact Nat.lt_succ_of_lt (hinv.serial r hr)
  · rcases hcases hr with rfl | hr
    · refine ⟨?_, .inr hstamp.le⟩
      rw [hgeneration]
      exact hvalue
    · exact hinv.value r hr
  · rcases hcases hr with rfl | hr
    · intro later u earlier heq hmem
      rcases History.split_cons heq with ⟨-, heq, -⟩ | ⟨rest, -, heq⟩
      · cases heq
      · exact hnew (heq ▸ List.mem_append_right _ (List.mem_cons_of_mem _ hmem))
    · exact (hinv.fresh r hr hr').cons fun u heq => by cases heq
  · cases heq
    have hepoch' : epoch = b.epoch := by
      rw [← hepoch, hgeneration]
    rw [hstamp, hepoch]
    exact hb.resolve_left (hepoch' ▸ hvalue)

/-- A task that was given no record, no candidate and no barrier. -/
theorem TaskInv.plain {pc' : Pc K V} (ht : TaskInv sh t task) (hcandidate : pc'.candidate = none)
    (hread : pc'.read = none) (hbarrier : pc'.barrier = none)
    (hanswer : ∀ mode key now, task.op = .read mode key now → pc'.answer = none) :
    TaskInv sh t { task with pc := pc' } where
  began := ht.began
  candidate := fun r hr => by rw [hcandidate] at hr; cases hr
  read := fun r hr => by rw [hread] at hr; cases hr
  checked := fun r hr => by
    obtain rfl : pc' = .representation r := hr
    cases hread
  barrier := fun b hb => by rw [hbarrier] at hb; cases hb
  answer := fun mode key now found hop hfound => by
    rw [hanswer mode key now hop] at hfound
    cases hfound

theorem isCurrent_iff {g : MemoryGeneration} {w : World} :
    g.isCurrent w = true ↔ g.value ≠ 0 ∧ g.value = w.epochs g.epoch := by
  simp only [MemoryGeneration.isCurrent, Bool.and_eq_true, decide_eq_true_eq, ne_eq,
    decide_not, Bool.not_eq_true', decide_eq_false_iff_not, eq_comm (a := w.epochs g.epoch)]

theorem Move.keeps {pc' : Pc K V} (h : Move t sh task pc' sh') (hinv : SharedInv sh)
    (ht : TaskInv sh t task) :
    SharedInv sh' ∧ Later sh sh' ∧ TaskInv sh' t { task with pc := pc' } := by
  have hsame : Later sh sh := (⟨rfl, rfl, .inl rfl⟩ : Quiet sh sh).later
  -- The provider only loses records.
  have hloses (held : List (MemoryRecord K V)) (hheld : ∀ r ∈ held, r ∈ sh.held) :
      SharedInv { sh with held } ∧ Later sh { sh with held } :=
    have hquiet : Quiet sh { sh with held } := ⟨rfl, rfl, .inl rfl⟩
    ⟨hquiet.shared hinv fun r hr => hinv.held r (hheld r hr), hquiet.later⟩
  cases h with
  | quiet _ hplain hanswer =>
    refine ⟨hinv, hsame, ht.plain ?_ ?_ ?_ fun _ _ _ _ => hanswer⟩
    all_goals cases pc' <;> first | rfl | cases hplain
  | @found record mode now hop _ hheld hepoch =>
    refine ⟨hinv, hsame, ht.began, fun r hr => (by cases hr), fun r hr => ?_,
      fun r hr => (by cases hr), fun b hb => (by cases hb), fun _ _ _ _ _ h => by cases h⟩
    cases hr
    exact ⟨hinv.held record hheld, ⟨mode, now, hop⟩, hepoch⟩
  | @checked record hpc hcurrent =>
    have hread := ht.read record (by rw [hpc]; rfl)
    refine ⟨hinv, hsame, ht.began, fun r hr => (by cases hr), fun r hr => ?_, fun r hr => ?_,
      fun b hb => (by cases hb), fun _ _ _ _ _ h => by cases h⟩
    · cases hr
      exact hread
    · cases hr
      exact (hinv.fresh record hread.1 (isCurrent_iff.mp hcurrent).2).readAfter t
  | @served record hpc =>
    obtain ⟨hprepared, ⟨mode, now, hop⟩, hepoch⟩ := ht.read record (by rw [hpc]; rfl)
    refine ⟨hinv, hsame, ht.began, fun r hr => (by cases hr), fun r hr => (by cases hr),
      fun r hr => (by cases hr), fun b hb => (by cases hb),
      fun mode' key now' found hop' hfound => ?_⟩
    cases hop.symm.trans hop'
    cases hfound
    exact ⟨record, rfl, rfl, hepoch, hprepared, ht.checked record hpc⟩
  | @taken record _ _ _ _ _ hread hcandidate hbarrier hanswer =>
    obtain ⟨hinv', hlater⟩ := hloses (without sh.held record) fun r hr => (mem_without.mp hr).1
    exact ⟨hinv', hlater, (hlater.keeps ht).plain hcandidate hread hbarrier hanswer⟩
  | explained hpc => exact ⟨hinv, hsame, ht.plain rfl rfl rfl fun _ _ _ _ => rfl⟩
  | @prepared record _ hserial hcurrent =>
    obtain ⟨hinv', hlater⟩ := hinv.prepared hserial hcurrent
    refine ⟨hinv', hlater, hlater.mem ht.began, fun r hr => ?_, fun r hr => (by cases hr),
      fun r hr => (by cases hr), fun b hb => (by cases hb), fun _ _ _ _ _ h => by cases h⟩
    cases hr
    exact List.mem_cons_self ..
  | @wrote candidate write now condition event held removed admission hpc haccepted =>
    have hquiet : Quiet sh { sh with
        held
        history := if admission.stored then .placed candidate :: sh.history else sh.history } := by
      refine ⟨rfl, rfl, ?_⟩
      split
      · exact .inr ⟨_, rfl, fun _ h => (by cases h), fun _ _ h => by cases h⟩
      · exact .inl rfl
    refine ⟨hquiet.shared hinv fun r hr => ?_, hquiet.later,
      (hquiet.later.keeps ht).plain rfl rfl rfl fun _ _ _ _ => rfl⟩
    rcases mem_of_accepted haccepted hr with hr | rfl
    · exact hinv.held r hr
    · exact ht.candidate r (by rw [hpc]; rfl)
  | advanced _ hvalue hpc' hop =>
    obtain ⟨hinv', hlater⟩ := hinv.advanced hvalue t
    rcases hpc' with rfl | ⟨barrier, hbarrier, rfl⟩
    · exact ⟨hinv', hlater, (hlater.keeps ht).plain rfl rfl rfl fun _ _ _ _ => rfl⟩
    · obtain ⟨hepoch, hnew⟩ := (advance_spec hvalue).2.2 barrier hbarrier
      refine ⟨hinv', hlater, hlater.mem ht.began, fun r hr => (by cases hr),
        fun r hr => (by cases hr), fun r hr => (by cases hr), fun b hb => ?_,
        fun _ _ _ _ _ h => by cases h⟩
      cases hb
      refine ⟨hepoch, .inr (hepoch ▸ hnew.le), [], sh.history, ?_, fun r hr => by cases hr⟩
      rw [hepoch]
      rfl
  | cleared hpc _ =>
    obtain ⟨hinv', hlater⟩ := hloses _ fun r hr => (mem_kept.mp hr).1
    exact ⟨hinv', hlater, (hlater.keeps ht).plain rfl rfl rfl fun _ _ _ _ => rfl⟩
  | maintained _ _ =>
    obtain ⟨hinv', hlater⟩ := hloses _ fun r hr => (mem_kept.mp hr).1
    exact ⟨hinv', hlater, (hlater.keeps ht).plain rfl rfl rfl fun _ _ _ _ => rfl⟩
  | @retired record reason records outcome hpc =>
    have hquiet : Quiet sh { sh with history := .retired record reason :: sh.history } :=
      ⟨rfl, rfl, .inr ⟨_, rfl, fun _ h => (by cases h), fun _ _ h => by cases h⟩⟩
    refine ⟨hquiet.shared hinv hinv.held, hquiet.later, ?_⟩
    have ht' := hquiet.later.keeps ht
    refine ⟨ht'.began, fun r hr => (by cases hr), fun r hr => (by cases hr),
      fun r hr => (by cases hr), fun b hb => (by cases hb), fun mode key now found hop hfound => ?_⟩
    exact ht'.answer mode key now found hop (by rw [hpc]; exact hfound)
  | @reported outcome hpc =>
    refine ⟨hinv, hsame, ht.began, fun r hr => (by cases hr), fun r hr => (by cases hr),
      fun r hr => (by cases hr), fun b hb => (by cases hb), fun mode key now found hop hfound => ?_⟩
    exact ht.answer mode key now found hop (by rw [hpc]; exact hfound)

/-! ## Runs -/

structure Inv (s : State K V) : Prop where
  shared : SharedInv s.shared
  task : ∀ t task, s.tasks.lookup t = some task → TaskInv s.shared t task

variable {s s' : State K V}

/-- What happens to the tasks in one step of the system. -/
theorem Inv.next (h : Inv s) {a : Action K V} (hnext : next s a = some s') : Inv s' := by
  cases a with
  | begin_ t cache op =>
    simp only [Supplied.next] at hnext
    split at hnext
    · cases hnext
    · cases hnext
      have hquiet : Quiet s.shared { s.shared with history := .began t :: s.shared.history } :=
        ⟨rfl, rfl, .inr ⟨_, rfl, fun _ h => (by cases h), fun _ _ h => by cases h⟩⟩
      refine ⟨hquiet.shared h.shared h.shared.held, fun u task hu => ?_⟩
      rcases AList.lookup_insert_cases hu with ⟨rfl, rfl⟩ | ⟨-, hu⟩
      · exact ⟨List.mem_cons_self .., fun r hr => (by cases hr), fun r hr => (by cases hr),
          fun r hr => (by cases hr), fun b hb => (by cases hb), fun _ _ _ _ _ h => by cases h⟩
      · exact hquiet.later.keeps (h.task u task hu)
  | step t input =>
    simp only [Supplied.next] at hnext
    split at hnext
    · cases hnext
    · rename_i task ht
      obtain ⟨⟨task', shared⟩, hstep, heq⟩ := Option.map_eq_some_iff.mp hnext
      cases heq
      obtain ⟨hcache, hop, hmove⟩ := move_of_step hstep
      obtain ⟨hshared, hlater, htask⟩ := hmove.keeps h.shared (h.task t task ht)
      refine ⟨hshared, fun u other hu => ?_⟩
      rcases AList.lookup_insert_cases hu with ⟨rfl, rfl⟩ | ⟨-, hu⟩
      · obtain ⟨cache, op, pc⟩ := other
        obtain rfl : cache = task.cache := hcache
        obtain rfl : op = task.op := hop
        exact htask
      · exact hlater.keeps (h.task u other hu)
  | abandon t =>
    simp only [Supplied.next] at hnext
    split at hnext
    · rename_i cache op barrier ht
      cases hnext
      refine ⟨h.shared, fun u task hu => ?_⟩
      rcases AList.lookup_insert_cases hu with ⟨rfl, rfl⟩ | ⟨-, hu⟩
      · exact (h.task u _ ht).plain rfl rfl rfl fun _ _ _ _ => rfl
      · exact h.task u task hu
    · cases hnext
  | observe continuity instant =>
    cases hnext
    have hquiet : Quiet s.shared { s.shared with
        world := { s.shared.world with continuity, instant } } := ⟨rfl, rfl, .inl rfl⟩
    exact ⟨hquiet.shared h.shared h.shared.held, fun t task ht =>
      hquiet.later.keeps (h.task t task ht)⟩

theorem Inv.of_reachable {epochs : EpochId → Nat}
    (hreach : Run.Reachable Supplied.next (init epochs) s) : Inv s :=
  hreach.invariant ⟨⟨fun _ h => (by cases h), fun _ h => (by cases h), fun _ h => (by cases h),
    fun _ h => by cases h⟩, fun _ _ h => by cases h⟩ fun _ _ _ h hnext => h.next hnext

/-- **Reads of a supplied storage.** What a read returns is of its key and its namespace, and every
advance of the epoch that came after the preparation of the record came after the read began too.
A clear lets go only of records that were prepared before its own advance. -/
theorem supplied_reads_are_current {epochs : EpochId → Nat}
    (hreach : Run.Reachable Supplied.next (init epochs) s) :
    (∀ t task mode key now found, s.tasks.lookup t = some task → task.op = .read mode key now →
      task.pc = .done (.entry (some found)) →
      ∃ r, r.entry = found ∧ r.key = key ∧ r.generation.epoch = task.cache.epoch ∧
        .prepared r ∈ s.shared.history ∧
        ∀ later u earlier, s.shared.history = later ++ .advanced task.cache.epoch u :: earlier →
          .prepared r ∈ earlier → .began t ∈ earlier) ∧
    ∀ t task barrier input s', s.tasks.lookup t = some task → task.pc = .clear barrier →
      next s (.step t input) = some s' → ∀ r ∈ s.shared.held, r ∉ s'.shared.held →
      r.generation.epoch = task.cache.epoch ∧
        ∃ later earlier, s.shared.history = later ++ .advanced task.cache.epoch t :: earlier ∧
          .prepared r ∈ earlier := by
  have hinv := Inv.of_reachable hreach
  refine ⟨fun t task mode key now found ht hop hpc => ?_, fun t task barrier input s' ht hpc hnext r
    hr hgone => ?_⟩
  · obtain ⟨r, hentry, hkey, hepoch, hprepared, hafter⟩ :=
      (hinv.task t task ht).answer mode key now found hop (by rw [hpc]; rfl)
    exact ⟨r, hentry, hkey, hepoch, hprepared, fun later u earlier heq =>
      hafter later u earlier (hepoch ▸ heq)⟩
  · simp only [Supplied.next, ht] at hnext
    obtain ⟨⟨task', shared⟩, hstep, heq⟩ := Option.map_eq_some_iff.mp hnext
    cases heq
    obtain ⟨-, -, hmove⟩ := move_of_step hstep
    obtain ⟨hepoch, -, later, earlier, hhistory, hlater⟩ :=
      (hinv.task t task ht).barrier barrier (by rw [hpc]; rfl)
    obtain ⟨cache, op, pc⟩ := task
    obtain rfl : pc = .clear barrier := hpc
    generalize task'.pc = pc' at hmove
    cases hmove with
    | quiet | prepared | advanced => exact absurd hr hgone
    | cleared hpc hselected =>
      cases hpc
      have hprecedes := hselected r hr (by
        by_contra hkept
        exact hgone (mem_kept.mpr ⟨hr, by simpa using hkept⟩))
      simp only [MemoryGeneration.precedes, Bool.and_eq_true, decide_eq_true_eq] at hprecedes
      refine ⟨hprecedes.1.symm.trans hepoch, later, earlier, hepoch ▸ hhistory, ?_⟩
      -- It has a lower value than what was prepared since.
      have hprepared := hinv.shared.held r hr
      rw [hhistory] at hprepared
      rcases List.mem_append.mp hprepared with hmem | hmem
      · exact absurd (hlater r hmem hprecedes.1.symm) (Nat.not_le_of_lt hprecedes.2)
      · exact (List.mem_cons.mp hmem).resolve_left fun h => by cases h
    | taken _ hfrom _ _ _ _ _ _ => cases hfrom
    | maintained _ hfrom => cases hfrom
    | wrote hpc _ => cases hpc
    | _ => exact absurd hr hgone

/-! ### Runs -/

def oneCache : Cache := ⟨0, 0, .clockDriven⟩

def storedEntry : Entry Unit := .intoFresh () (.fromTicks 5) (.fromTicks 20) 0

def answered (reply : Reply) : Input := ⟨reply, 1, 0⟩

/-- An insert of a key that the provider does not hold. -/
def inserting : List (Action Nat Unit) :=
  [.begin_ 0 oneCache (.insert 7 storedEntry (.fromTicks 5) .any .set), .step 0 (answered .failed),
    .step 0 (answered (.wrote (.admitted fun _ => none))), .step 0 (answered .failed)]

/-- A read that the provider answers with the record. -/
def reading : List (Action Nat Unit) :=
  [.begin_ 1 oneCache (.read .ordinary 7 (.fromTicks 6)), .step 1 (answered .failed),
    .step 1 (answered (.found (some 0))), .step 1 (answered .failed), .step 1 (answered .failed)]

def firstEpochs : EpochId → Nat := fun _ => 1

theorem supplied_reads_are_current_stored :
    ∃ s task, Run.exec Supplied.next (init firstEpochs) (inserting ++ reading) = some s ∧
      s.tasks.lookup 1 = some task ∧ task.pc = .done (.entry (some storedEntry)) ∧
      ∃ r, r.entry = storedEntry ∧ r.key = 7 ∧ .prepared r ∈ s.shared.history := by
  have hreach : Run.Reachable Supplied.next (init firstEpochs) _ := ⟨inserting ++ reading, rfl⟩
  obtain ⟨r, hentry, hkey, -, hprepared, -⟩ :=
    (supplied_reads_are_current hreach).1 1 _ _ _ _ storedEntry rfl rfl rfl
  exact ⟨_, _, rfl, rfl, rfl, r, hentry, hkey, hprepared⟩

/-! ## Exhaustion -/

/-- The operation asks for the current generation first. -/
def Op.stamped : Op K V → Bool
  | .read .. | .insert .. | .invalidate => true
  | .remove .. | .maintain => false

/-- How such an operation ends on an exhausted epoch. -/
def Refused : Op K V → Outcome V → Prop
  | .insert .., outcome => outcome = .failed .generationExhausted ∨
      outcome = .admission (.rejected .physicallyExpired)
  | _, outcome => outcome = .failed .generationExhausted

theorem refused_of_step {task' : Task K V} (he : sh.world.epochs task.cache.epoch = 0)
    (hop : task.op.stamped = true) (hpc : task.pc = .start)
    (h : task.step t sh input = some (task', sh')) :
    ∃ outcome, task'.pc = .done outcome ∧ Refused task.op outcome := by
  obtain ⟨cache, op, pc⟩ := task
  obtain rfl : pc = .start := hpc
  obtain ⟨⟨pc', sh''⟩, hbegun, heq⟩ := Option.map_eq_some_iff.mp h
  obtain ⟨rfl, rfl⟩ := Prod.mk.inj heq
  have hcurrent : sh.world.current cache.epoch = none := if_pos he
  cases op with
  | read mode key now =>
    simp only [stepRead, hcurrent] at hbegun
    cases hbegun
    exact ⟨_, rfl, rfl⟩
  | insert key entry now condition event =>
    simp only [stepInsert, hcurrent] at hbegun
    split at hbegun
    · cases hbegun
      exact ⟨_, rfl, .inr rfl⟩
    · cases hbegun
      exact ⟨_, rfl, .inl rfl⟩
  | invalidate =>
    have he : sh.world.epochs cache.epoch = 0 := he
    simp only [stepInvalidate, he, if_true] at hbegun
    cases hbegun
    exact ⟨_, rfl, rfl⟩
  | remove | maintain => cases hop

/-- The entry that the read returns unless the representation is no longer live. -/
def Pc.offers : Pc K V → Option (Entry V)
  | .representation record => some record.entry
  | pc => pc.answer

/-- On an exhausted epoch nothing is prepared, and no read comes by a record. -/
theorem Move.exhausted {pc' : Pc K V} {e : EpochId} (h : Move t sh task pc' sh')
    (ht : TaskInv sh t task) (he : sh.world.epochs e = 0) :
    sh'.world.epochs e = 0 ∧
      (∀ r, .prepared r ∈ sh'.history → r.generation.epoch = e → .prepared r ∈ sh.history) ∧
      (task.cache.epoch = e → ∀ mode key now found, task.op = .read mode key now →
        pc'.offers = some found → task.pc.offers = some found) := by
  have hold : ∀ r : MemoryRecord K V, .prepared r ∈ sh.history → r.generation.epoch = e →
      .prepared r ∈ sh.history := fun _ h _ => h
  cases h with
  | quiet _ hplain hanswer =>
    refine ⟨he, hold, fun _ _ _ _ found _ hoffers => ?_⟩
    cases pc' with
    | representation => cases hplain
    | _ => exact absurd (hanswer.symm.trans hoffers) (Option.some_ne_none found).symm
  | found => exact ⟨he, hold, fun _ _ _ _ _ _ hoffers => by cases hoffers⟩
  | @checked record hpc hcurrent =>
    refine ⟨he, hold, fun hepoch _ _ _ _ _ _ => ?_⟩
    -- A current stamp is not the exhausted value.
    obtain ⟨hne, hvalue⟩ := isCurrent_iff.mp hcurrent
    rw [(ht.read record (by rw [hpc]; rfl)).2.2, hepoch, he] at hvalue
    exact absurd hvalue hne
  | served hpc => exact ⟨he, hold, fun _ _ _ _ _ _ hoffers => by rw [hpc]; exact hoffers⟩
  | taken _ _ _ _ hread _ _ hanswer =>
    refine ⟨he, hold, fun _ mode key now found hop hoffers => ?_⟩
    have hnone := hanswer mode key now hop
    cases pc' with
    | representation => cases hread
    | _ => exact absurd (hnone.symm.trans hoffers) (Option.some_ne_none found).symm
  | explained => exact ⟨he, hold, fun _ _ _ _ _ _ hoffers => by cases hoffers⟩
  | @prepared record _ _ hcurrent =>
    obtain ⟨hgeneration, hvalue⟩ := current_eq_some hcurrent
    refine ⟨he, fun r hr hepoch => (List.mem_cons.mp hr).resolve_left fun heq => ?_,
      fun _ _ _ _ _ _ hoffers => by cases hoffers⟩
    cases heq
    rw [hgeneration] at hepoch
    obtain rfl : task.cache.epoch = e := hepoch
    exact hvalue he
  | @wrote candidate =>
    refine ⟨he, fun r hr _ => ?_, fun _ _ _ _ _ _ hoffers => by cases hoffers⟩
    dsimp only at hr
    split at hr
    · exact (List.mem_cons.mp hr).resolve_left fun heq => by cases heq
    · exact hr
  | advanced _ hvalue _ hop =>
    refine ⟨?_, fun r hr _ => (List.mem_cons.mp hr).resolve_left fun heq => (by cases heq),
      fun _ _ _ _ _ hop' => by cases hop.symm.trans hop'⟩
    exact ((advance_spec hvalue).1 e fun heq => hvalue (heq ▸ he)).trans he
  | cleared => exact ⟨he, hold, fun _ _ _ _ _ _ hoffers => by cases hoffers⟩
  | maintained => exact ⟨he, hold, fun _ _ _ _ _ _ hoffers => by cases hoffers⟩
  | retired hpc =>
    exact ⟨he, fun r hr _ => (List.mem_cons.mp hr).resolve_left fun heq => (by cases heq),
      fun _ _ _ _ _ _ hoffers => by rw [hpc]; exact hoffers⟩
  | reported hpc => exact ⟨he, hold, fun _ _ _ _ _ _ hoffers => by rw [hpc]; exact hoffers⟩

/-- What a run from `s₀` keeps once the epoch is exhausted. -/
structure Closed (e : EpochId) (s₀ s : State K V) : Prop where
  epoch : s.shared.world.epochs e = 0
  prepared : ∀ r, .prepared r ∈ s.shared.history → r.generation.epoch = e →
    .prepared r ∈ s₀.shared.history
  stays : ∀ t, t ∈ s₀.tasks → t ∈ s.tasks
  begun : ∀ t task, s.tasks.lookup t = some task → t ∉ s₀.tasks → task.cache.epoch = e →
    task.op.stamped = true →
    task.pc = .start ∨ ∃ outcome, task.pc = .done outcome ∧ Refused task.op outcome
  offered : ∀ t task mode key now found, s.tasks.lookup t = some task → task.cache.epoch = e →
    task.op = .read mode key now → task.pc.offers = some found →
    ∃ before, s₀.tasks.lookup t = some before ∧ before.pc.offers = some found

theorem Closed.next {e : EpochId} {s₀ : State K V} (h : Closed e s₀ s) (hinv : Inv s)
    {a : Action K V} (hnext : Supplied.next s a = some s') : Closed e s₀ s' := by
  cases a with
  | begin_ t cache op =>
    simp only [Supplied.next] at hnext
    split at hnext
    · cases hnext
    · rename_i hnew
      cases hnext
      refine ⟨h.epoch, fun r hr => h.prepared r ((List.mem_cons.mp hr).resolve_left fun heq => ?_),
        fun u hu => (AList.mem_insert _).mpr (.inr (h.stays u hu)), fun u task hu => ?_,
        fun u task mode key now found hu => ?_⟩
      · cases heq
      · rcases AList.lookup_insert_cases hu with ⟨rfl, rfl⟩ | ⟨-, hu⟩
        · exact fun _ _ _ => .inl rfl
        · exact h.begun u task hu
      · rcases AList.lookup_insert_cases hu with ⟨rfl, rfl⟩ | ⟨-, hu⟩
        · exact fun _ _ hoffers => by cases hoffers
        · exact h.offered u task mode key now found hu
  | step t input =>
    simp only [Supplied.next] at hnext
    split at hnext
    · cases hnext
    · rename_i task ht
      obtain ⟨⟨task', shared⟩, hstep, heq⟩ := Option.map_eq_some_iff.mp hnext
      cases heq
      obtain ⟨hcache, hop, hmove⟩ := move_of_step hstep
      obtain ⟨hepoch, hprepared, hoffered⟩ := hmove.exhausted (hinv.task t task ht) h.epoch
      refine ⟨hepoch, fun r hr he => h.prepared r (hprepared r hr he) he,
        fun u hu => (AList.mem_insert _).mpr (.inr (h.stays u hu)),
        fun u other hu hnew he hstamped => ?_,
        fun u other mode key now found hu he hread hoffers => ?_⟩
      · rcases AList.lookup_insert_cases hu with ⟨rfl, rfl⟩ | ⟨-, hu⟩
        · rw [hcache] at he
          rw [hop] at hstamped ⊢
          rcases h.begun u task ht hnew he hstamped with hstart | ⟨outcome, hdone, -⟩
          · exact .inr (refused_of_step (by rw [he]; exact h.epoch) hstamped hstart hstep)
          · obtain ⟨cache, op, pc⟩ := task
            obtain rfl : pc = .done outcome := hdone
            cases op <;> cases hstep
        · exact h.begun u other hu hnew he hstamped
      · rcases AList.lookup_insert_cases hu with ⟨rfl, rfl⟩ | ⟨-, hu⟩
        · have he : task.cache.epoch = e := (congrArg Cache.epoch hcache).symm.trans he
          have hread := hop.symm.trans hread
          exact h.offered u task mode key now found ht he hread
            (hoffered he mode key now found hread hoffers)
        · exact h.offered u other mode key now found hu he hread hoffers
  | abandon t =>
    simp only [Supplied.next] at hnext
    split at hnext
    · rename_i cache op barrier ht
      cases hnext
      refine ⟨h.epoch, h.prepared, fun u hu => (AList.mem_insert _).mpr (.inr (h.stays u hu)),
        fun u task hu hnew he hstamped => ?_,
        fun u task mode key now found hu he hread hoffers => ?_⟩
      · rcases AList.lookup_insert_cases hu with ⟨rfl, rfl⟩ | ⟨-, hu⟩
        · rcases h.begun u _ ht hnew he hstamped with hstart | ⟨_, hdone, -⟩
          · cases hstart
          · cases hdone
        · exact h.begun u task hu hnew he hstamped
      · rcases AList.lookup_insert_cases hu with ⟨rfl, rfl⟩ | ⟨-, hu⟩
        · cases hoffers
        · exact h.offered u task mode key now found hu he hread hoffers
    · cases hnext
  | observe continuity instant =>
    cases hnext
    exact ⟨h.epoch, h.prepared, h.stays, h.begun, h.offered⟩

/-- **Exhaustion.** Once an epoch is exhausted it stays so: no record of it is prepared, reads,
inserts and invalidations that begin later fail, and a read in flight returns an entry only if its
generation check had passed before. -/
theorem exhausted_epoch_serves_nothing {epochs : EpochId → Nat} {e : EpochId}
    (as : List (Action K V)) (hreach : Run.Reachable Supplied.next (init epochs) s)
    (he : s.shared.world.epochs e = 0) (hrun : Run.exec Supplied.next s as = some s') :
    s'.shared.world.epochs e = 0 ∧
      (∀ r, .prepared r ∈ s'.shared.history → r.generation.epoch = e →
        .prepared r ∈ s.shared.history) ∧
      (∀ t task outcome, s'.tasks.lookup t = some task → t ∉ s.tasks → task.cache.epoch = e →
        task.op.stamped = true → task.pc = .done outcome → Refused task.op outcome) ∧
      ∀ t task mode key now found, s'.tasks.lookup t = some task → task.cache.epoch = e →
        task.op = .read mode key now → task.pc = .done (.entry (some found)) →
        ∃ before, s.tasks.lookup t = some before ∧ before.pc.offers = some found := by
  have hstart : Closed e s s := by
    refine ⟨he, fun _ h _ => h, fun _ h => h, fun t task ht hnew => ?_,
      fun t task _ _ _ _ ht _ _ hoffers => ⟨task, ht, hoffers⟩⟩
    exact absurd (AList.lookup_isSome.mp (by rw [ht]; rfl)) hnew
  obtain ⟨-, h⟩ : Inv s' ∧ Closed e s s' :=
    Run.exec_invariant (I := fun s' => Inv s' ∧ Closed e s s')
      (fun _ _ _ h hnext => ⟨h.1.next hnext, h.2.next h.1 hnext⟩)
      ⟨Inv.of_reachable hreach, hstart⟩ hrun
  refine ⟨h.epoch, h.prepared, fun t task outcome ht hnew hepoch hop hpc => ?_,
    fun t task mode key now found ht hepoch hop hpc =>
      h.offered t task mode key now found ht hepoch hop (by rw [hpc]; rfl)⟩
  rcases h.begun t task ht hnew hepoch hop with hstart | ⟨_, hdone, hrefused⟩
  · cases hstart.symm.trans hpc
  · cases hdone.symm.trans hpc
    exact hrefused

def lastEpochs : EpochId → Nat := fun _ => u64Max

/-- An invalidation takes the last generation. -/
def exhausting : List (Action Nat Unit) :=
  inserting ++ [.begin_ 2 oneCache .invalidate, .step 2 (answered .failed)]

theorem exhausted_epoch_serves_nothing_read :
    ∃ s s' task, Run.exec Supplied.next (init lastEpochs) exhausting = some s ∧
      s.shared.world.epochs 0 = 0 ∧
      Run.exec Supplied.next s [.begin_ 1 oneCache (.read .ordinary 7 (.fromTicks 6)),
        .step 1 (answered .failed)] = some s' ∧
      s'.tasks.lookup 1 = some task ∧ task.pc = .done (.failed .generationExhausted) ∧
      Refused task.op (.failed .generationExhausted) := by
  have hreach : Run.Reachable Supplied.next (init lastEpochs) _ := ⟨exhausting, rfl⟩
  have hrefused := (exhausted_epoch_serves_nothing (e := 0) [.begin_ 1 oneCache
    (.read .ordinary 7 (.fromTicks 6)), .step 1 (answered .failed)] hreach rfl rfl).2.2.1 1 _ _ rfl
    (by decide) rfl rfl rfl
  exact ⟨_, _, _, rfl, rfl, rfl, rfl, rfl, hrefused⟩

/-! ## Conservation -/

/-- How often the allocation occurs. -/
def occurrences (n : Serial) (records : List (MemoryRecord K V)) : Nat :=
  records.countP fun r => r.serial = n

def Event.places (n : Serial) : Event K V → Bool
  | .placed r => r.serial = n
  | _ => false

def Event.retires (n : Serial) : Event K V → Bool
  | .retired r _ => r.serial = n
  | _ => false

theorem occurrences_cons (n : Serial) (r : MemoryRecord K V) (records : List (MemoryRecord K V)) :
    occurrences n (r :: records) = occurrences n records + if r.serial = n then 1 else 0 := by
  simp only [occurrences, List.countP_cons, decide_eq_true_eq]

theorem lost_cons_none {gone : Gone} {r : MemoryRecord K V} (held : List (MemoryRecord K V))
    (h : gone r.serial = none) : lost gone (r :: held) = lost gone held :=
  List.filterMap_cons_none (by rw [h]; rfl)

theorem lost_cons_some {gone : Gone} {r : MemoryRecord K V} {reason : MemoryEvictionReason}
    (held : List (MemoryRecord K V)) (h : gone r.serial = some reason) :
    lost gone (r :: held) = (r, retirementOf reason) :: lost gone held :=
  List.filterMap_cons_some (by rw [h]; rfl)

/-- What the provider lets go of, it returns. -/
theorem occurrences_kept (n : Serial) (gone : Gone) (held : List (MemoryRecord K V)) :
    occurrences n (kept gone held) + occurrences n ((lost gone held).map Prod.fst) =
      occurrences n held := by
  induction held with
  | nil => rfl
  | cons r held ih =>
    rw [occurrences_cons n r held]
    cases hgone : gone r.serial with
    | none =>
      have hkept : kept gone (r :: held) = r :: kept gone held :=
        List.filter_cons_of_pos (by rw [hgone]; rfl)
      rw [hkept, lost_cons_none held hgone, occurrences_cons]
      omega
    | some reason =>
      have hkept : kept gone (r :: held) = kept gone held :=
        List.filter_cons_of_neg (by rw [hgone]; exact Bool.false_ne_true)
      rw [hkept, lost_cons_some held hgone, List.map_cons, occurrences_cons]
      dsimp only
      omega

theorem lost_records (gone : Gone) (held : List (MemoryRecord K V)) :
    (lost gone held).map Prod.fst = held.filter fun r => (gone r.serial).isSome := by
  induction held with
  | nil => rfl
  | cons r held ih =>
    cases hgone : gone r.serial with
    | none =>
      rw [lost_cons_none held hgone, ih]
      exact (List.filter_cons_of_neg (by rw [hgone]; exact Bool.false_ne_true)).symm
    | some reason =>
      rw [lost_cons_some held hgone, List.map_cons, ih]
      exact (List.filter_cons_of_pos (by rw [hgone]; rfl)).symm

theorem occurrences_without {held : List (MemoryRecord K V)} {r : MemoryRecord K V} (n : Serial)
    (hunique : occurrences r.serial held ≤ 1) (hr : r ∈ held) :
    occurrences n (without held r) + (if r.serial = n then 1 else 0) = occurrences n held := by
  have hfilter : occurrences n (without held r) =
      held.countP fun other => decide (other.serial = n) && decide (other.serial ≠ r.serial) :=
    List.countP_filter
  by_cases hn : r.serial = n
  · subst hn
    have hzero : occurrences r.serial (without held r) = 0 := by
      rw [hfilter, List.countP_eq_zero]
      intro other _
      simp
    have hpos : 0 < occurrences r.serial held :=
      List.countP_pos_iff.mpr ⟨r, hr, decide_eq_true rfl⟩
    rw [hzero, if_pos rfl]
    omega
  · rw [if_neg hn, Nat.add_zero, hfilter]
    refine List.countP_congr fun other _ => ?_
    simp only [Bool.and_eq_true, decide_eq_true_eq, ne_eq, and_iff_left_iff_imp]
    rintro rfl heq
    exact hn heq.symm

theorem occurrences_accepted {write : Write} {w : World} {now : Timestamp}
    {held held' : List (MemoryRecord K V)} {candidate : MemoryRecord K V}
    {condition : MemoryCondition V} {event : MemoryWriteEvent}
    {removed : List (MemoryRecord K V × RetirementReason)} {admission : MemoryAdmission}
    (h : write.accepted w now held candidate condition event = some (held', removed, admission))
    (hunique : ∀ n, occurrences n held ≤ 1) (n : Serial) :
    occurrences n held' + occurrences n (removed.map Prod.fst) =
      occurrences n held + if admission.stored ∧ candidate.serial = n then 1 else 0 := by
  cases write with
  | admitted gone =>
    simp only [Write.accepted] at h
    split at h
    · cases h
      have hkept := occurrences_kept n gone held
      rw [occurrences_cons]
      simp only [MemoryAdmission.stored, true_and]
      omega
    · cases h
  | replaced gone =>
    simp only [Write.accepted] at h
    split at h
    · cases h
    · rename_i previous hprevious
      split at h
      · cases h
        have hkept := occurrences_kept n gone (without held previous)
        have hwithout := occurrences_without n (hunique _) (List.mem_of_find?_eq_some hprevious)
        rw [List.map_cons, occurrences_cons, occurrences_cons]
        simp only [MemoryAdmission.stored, true_and]
        unfold without at hkept hwithout
        omega
      · cases h
  | rejected reason gone =>
    cases h
    have hkept := occurrences_kept n gone held
    simp only [MemoryAdmission.stored, Bool.false_eq_true, false_and, if_false]
    omega

/-- The records in the hands of calls, and those on their way to the provider. -/
def inHand (n : Serial) (s : State K V) : Nat :=
  s.tasks.total fun task => occurrences n task.pc.hand

def offered (n : Serial) (s : State K V) : Nat :=
  s.tasks.total fun task => occurrences n task.pc.candidate.toList

structure Balanced (s : State K V) : Prop where
  balance : ∀ n, s.shared.history.countP (Event.places n) =
    occurrences n s.shared.held + inHand n s + s.shared.history.countP (Event.retires n)
  once : ∀ n, offered n s + s.shared.history.countP (Event.places n) ≤
    if n < s.shared.nextSerial then 1 else 0

theorem below_succ (n next : Nat) :
    (if n < next then 1 else 0) + (if next = n then 1 else 0) = if n < next + 1 then 1 else 0 := by
  split_ifs <;> omega

theorem Move.balance {pc' : Pc K V} (h : Move t sh task pc' sh')
    (hunique : ∀ n, occurrences n sh.held ≤ 1) (n : Serial) :
    (sh'.history.countP (Event.places n) + occurrences n sh.held + occurrences n task.pc.hand +
        sh.history.countP (Event.retires n) =
      sh.history.countP (Event.places n) + occurrences n sh'.held + occurrences n pc'.hand +
        sh'.history.countP (Event.retires n)) ∧
    occurrences n pc'.candidate.toList + sh'.history.countP (Event.places n) +
        (if n < sh.nextSerial then 1 else 0) ≤
      occurrences n task.pc.candidate.toList + sh.history.countP (Event.places n) +
        (if n < sh'.nextSerial then 1 else 0) := by
  cases h with
  | quiet hhand hplain _ =>
    have hhand' : pc'.hand = [] := by
      cases pc' with
      | explain | retiring => cases hplain
      | _ => rfl
    have hcandidate : pc'.candidate = none := by
      cases pc' with
      | offer => cases hplain
      | _ => rfl
    rw [hhand, hhand', hcandidate]
    exact ⟨rfl, Nat.add_le_add_right (Nat.add_le_add_right (Nat.zero_le _) _) _⟩
  | found _ hhand _ _ =>
    rw [hhand]
    exact ⟨rfl, Nat.add_le_add_right (Nat.add_le_add_right (Nat.zero_le _) _) _⟩
  | checked hpc _ | served hpc | explained hpc | reported hpc =>
    rw [hpc]
    exact ⟨rfl, le_refl _⟩
  | @taken record _ hhand _ hheld hhand' _ hcandidate _ _ =>
    have hwithout := occurrences_without n (hunique _) hheld
    rw [hhand, hhand', hcandidate, occurrences_cons]
    refine ⟨?_, Nat.add_le_add_right (Nat.add_le_add_right (Nat.zero_le _) _) _⟩
    simp only [occurrences, List.countP_nil] at hwithout ⊢
    omega
  | @prepared record hhand hserial _ =>
    rw [hhand]
    refine ⟨rfl, ?_⟩
    have hone : occurrences n (Pc.offer record).candidate.toList =
        if sh.nextSerial = n then 1 else 0 := by
      rw [← hserial]
      exact (occurrences_cons n record []).trans (Nat.zero_add _)
    have hplaced : (Event.prepared record :: sh.history).countP (Event.places n) =
        sh.history.countP (Event.places n) := List.countP_cons_of_neg (by exact Bool.false_ne_true)
    have hnext := below_succ n sh.nextSerial
    rw [hone, hplaced]
    dsimp only
    omega
  | @wrote candidate write now condition event held removed admission hpc haccepted =>
    have haccounted := occurrences_accepted haccepted hunique n
    have hone : occurrences n task.pc.candidate.toList = if candidate.serial = n then 1 else 0 := by
      rw [hpc]
      exact (occurrences_cons n candidate []).trans (Nat.zero_add _)
    have hhand : task.pc.hand = [] := by rw [hpc]; rfl
    have hplaced : (if admission.stored then Event.placed candidate :: sh.history
        else sh.history).countP (Event.places n) = sh.history.countP (Event.places n) +
          if admission.stored ∧ candidate.serial = n then 1 else 0 := by
      split
      · rename_i hstored
        rw [List.countP_cons]
        simp only [Event.places, hstored, true_and, decide_eq_true_eq]
      · rename_i hstored
        rw [if_neg fun h => hstored h.1, Nat.add_zero]
    have hretired : (if admission.stored then Event.placed candidate :: sh.history
        else sh.history).countP (Event.retires n) = sh.history.countP (Event.retires n) := by
      split
      · exact List.countP_cons_of_neg Bool.false_ne_true
      · rfl
    have hbound : (if admission.stored ∧ candidate.serial = n then 1 else 0) ≤
        if candidate.serial = n then 1 else 0 := by
      split
      · rename_i hboth
        rw [if_pos hboth.2]
      · exact Nat.zero_le _
    dsimp only
    rw [hone, hhand, hplaced, hretired]
    refine ⟨?_, ?_⟩
    · show _ = _ + occurrences n (removed.map Prod.fst) + _
      simp only [occurrences, List.countP_nil] at haccounted ⊢
      omega
    · show occurrences n [] + _ + _ ≤ _
      simp only [occurrences, List.countP_nil]
      omega
  | advanced hhand _ hpc' _ =>
    rw [hhand]
    have hplain : pc'.hand = [] ∧ pc'.candidate = none := by
      rcases hpc' with rfl | ⟨_, -, rfl⟩ <;> exact ⟨rfl, rfl⟩
    have hplaced : (Event.advanced task.cache.epoch t :: sh.history).countP (Event.places n) =
        sh.history.countP (Event.places n) := List.countP_cons_of_neg Bool.false_ne_true
    have hretired : (Event.advanced task.cache.epoch t :: sh.history).countP (Event.retires n) =
        sh.history.countP (Event.retires n) := List.countP_cons_of_neg Bool.false_ne_true
    rw [hplain.1, hplain.2, hplaced, hretired]
    exact ⟨rfl, Nat.add_le_add_right (Nat.add_le_add_right (Nat.zero_le _) _) _⟩
  | @cleared barrier gone hpc _ =>
    have hkept := occurrences_kept n gone sh.held
    have hhand : (Pc.retiring ((sh.held.filter fun r => (gone r.serial).isSome).map fun r =>
        (r, .explicit)) .finished : Pc K V).hand =
          sh.held.filter fun r => (gone r.serial).isSome := by
      simp only [Pc.hand, List.map_map, Function.comp_def, List.map_id']
    rw [lost_records] at hkept
    rw [hhand, hpc]
    refine ⟨?_, le_refl _⟩
    simp only [Pc.hand, occurrences, List.countP_nil] at hkept ⊢
    omega
  | @maintained gone hhand _ =>
    have hkept := occurrences_kept n gone sh.held
    rw [hhand]
    refine ⟨?_, Nat.add_le_add_right (Nat.add_le_add_right (Nat.zero_le _) _) _⟩
    simp only [Pc.hand, occurrences, List.countP_nil] at hkept ⊢
    omega
  | @retired record reason records outcome hpc =>
    have hplaced : (Event.retired record reason :: sh.history).countP (Event.places n) =
        sh.history.countP (Event.places n) := List.countP_cons_of_neg Bool.false_ne_true
    have hretired : (Event.retired record reason :: sh.history).countP (Event.retires n) =
        sh.history.countP (Event.retires n) + if record.serial = n then 1 else 0 := by
      rw [List.countP_cons]
      simp only [Event.retires, decide_eq_true_eq]
    have hhand : occurrences n task.pc.hand = occurrences n (records.map Prod.fst) +
        if record.serial = n then 1 else 0 := by
      rw [hpc]
      exact occurrences_cons n record _
    rw [hhand, hplaced, hretired, hpc]
    refine ⟨?_, le_refl _⟩
    simp only [Pc.hand]
    omega

theorem inHand_insert (n : Serial) {tasks : AList fun _ : TaskId => Task K V} {sh : Shared K V}
    (task : Task K V) : inHand n ⟨sh, tasks.insert t task⟩ =
      occurrences n task.pc.hand + (tasks.erase t).total fun task => occurrences n task.pc.hand :=
  AList.total_insert _ _ _ _

theorem offered_insert (n : Serial) {tasks : AList fun _ : TaskId => Task K V} {sh : Shared K V}
    (task : Task K V) : offered n ⟨sh, tasks.insert t task⟩ =
      occurrences n task.pc.candidate.toList +
        (tasks.erase t).total fun task => occurrences n task.pc.candidate.toList :=
  AList.total_insert _ _ _ _

theorem Balanced.unique (h : Balanced s) (n : Serial) : occurrences n s.shared.held ≤ 1 := by
  have hbalance := h.balance n
  have honce := h.once n
  have hone : (if n < s.shared.nextSerial then 1 else 0) ≤ 1 := by split_ifs <;> omega
  omega

/-- A task that has nothing in its hands may begin, or be replaced by another such task. -/
theorem Balanced.idle (h : Balanced s) {task' : Task K V} {e : List (Event K V)}
    (hhand : task'.pc.hand = []) (hcandidate : task'.pc.candidate = none)
    (hbefore : s.tasks.lookup t = none ∨ ∃ task, s.tasks.lookup t = some task ∧
      task.pc.hand = [] ∧ task.pc.candidate = none)
    (hevents : ∀ n, (e ++ s.shared.history).countP (Event.places n) =
        s.shared.history.countP (Event.places n) ∧
      (e ++ s.shared.history).countP (Event.retires n) =
        s.shared.history.countP (Event.retires n)) :
    Balanced ⟨{ s.shared with history := e ++ s.shared.history }, s.tasks.insert t task'⟩ := by
  have hrest (n : Serial) : inHand n s = (s.tasks.erase t).total (fun task =>
      occurrences n task.pc.hand) ∧ offered n s = (s.tasks.erase t).total fun task =>
        occurrences n task.pc.candidate.toList := by
    rcases hbefore with hnone | ⟨task, ht, hhand, hcandidate⟩
    · rw [AList.erase_of_lookup_none hnone]
      exact ⟨rfl, rfl⟩
    · refine ⟨(AList.total_erase _ ht).trans ?_, (AList.total_erase _ ht).trans ?_⟩
      · rw [hhand]
        exact Nat.zero_add _
      · rw [hcandidate]
        exact Nat.zero_add _
  refine ⟨fun n => ?_, fun n => ?_⟩
  · rw [inHand_insert, hhand, (hevents n).1, (hevents n).2, h.balance n, (hrest n).1]
    simp only [occurrences, List.countP_nil, Nat.zero_add]
  · rw [offered_insert, hcandidate, (hevents n).1, ← (hrest n).2]
    exact (Nat.add_le_add_right (Nat.zero_add _).le _).trans (h.once n)

theorem Balanced.next (h : Balanced s) {a : Action K V} (hnext : Supplied.next s a = some s') :
    Balanced s' := by
  cases a with
  | begin_ t cache op =>
    simp only [Supplied.next] at hnext
    split at hnext
    · cases hnext
    · rename_i hnew
      cases hnext
      refine h.idle (e := [.began t]) rfl rfl (.inl (AList.lookup_eq_none.mpr hnew)) fun n => ?_
      exact ⟨List.countP_cons_of_neg Bool.false_ne_true,
        List.countP_cons_of_neg Bool.false_ne_true⟩
  | step t input =>
    simp only [Supplied.next] at hnext
    split at hnext
    · cases hnext
    · rename_i task ht
      obtain ⟨⟨task', shared⟩, hstep, heq⟩ := Option.map_eq_some_iff.mp hnext
      cases heq
      obtain ⟨-, -, hmove⟩ := move_of_step hstep
      have hinHand (n : Serial) : inHand n s = _ := AList.total_erase _ ht
      have hoffered (n : Serial) : offered n s = _ := AList.total_erase _ ht
      refine ⟨fun n => ?_, fun n => ?_⟩
      · have hbalance := h.balance n
        rw [hinHand] at hbalance
        rw [inHand_insert]
        have hmoved := (hmove.balance h.unique n).1
        dsimp only at hmoved hbalance ⊢
        omega
      · have honce := h.once n
        rw [hoffered] at honce
        rw [offered_insert]
        have hmoved := (hmove.balance h.unique n).2
        dsimp only at hmoved honce ⊢
        omega
  | abandon t =>
    simp only [Supplied.next] at hnext
    split at hnext
    · rename_i cache op barrier ht
      cases hnext
      exact h.idle (e := []) rfl rfl (.inr ⟨_, ht, rfl, rfl⟩) fun n => ⟨rfl, rfl⟩
    · cases hnext
  | observe continuity instant =>
    cases hnext
    exact ⟨h.balance, h.once⟩

/-- **Retirement.** What a supplied storage stored is in exactly one place: held by the provider,
removed and in the hands of one call, or told to the observer. No allocation is stored twice, so
none is reported twice, and a candidate that was refused is never reported. -/
theorem supplied_records_retire_once {epochs : EpochId → Nat}
    (hreach : Run.Reachable Supplied.next (init epochs) s) (n : Serial) :
    s.shared.history.countP (Event.places n) =
        occurrences n s.shared.held + inHand n s + s.shared.history.countP (Event.retires n) ∧
      s.shared.history.countP (Event.places n) ≤ 1 ∧
      (0 < offered n s → s.shared.history.countP (Event.places n) = 0) := by
  have h : Balanced s := hreach.invariant ⟨fun _ => rfl, fun _ => Nat.zero_le _⟩
    fun _ _ _ h hnext => h.next hnext
  have honce := h.once n
  have hone : (if n < s.shared.nextSerial then 1 else 0) ≤ 1 := by split_ifs <;> omega
  exact ⟨h.balance n, by omega, fun hoffered => by omega⟩

/-- The record is removed, and the observer is told. -/
def removing : List (Action Nat Unit) :=
  [.begin_ 3 oneCache (.remove 7 none), .step 3 (answered (.found (some 0))),
    .step 3 (answered .failed)]

theorem supplied_records_retire_once_removed :
    ∃ s, Run.exec Supplied.next (init firstEpochs) (inserting ++ removing) = some s ∧
      s.shared.held.length = 0 ∧ s.shared.history.countP (Event.places 0) =
        0 + inHand 0 s + s.shared.history.countP (Event.retires 0) := by
  have hreach : Run.Reachable Supplied.next (init firstEpochs) _ := ⟨inserting ++ removing, rfl⟩
  exact ⟨_, rfl, rfl, (supplied_records_retire_once hreach 0).1⟩

end

end Supplied

end Amalgam
