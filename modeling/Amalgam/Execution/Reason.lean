import Amalgam.Flight.Table

/-!
# Amalgam — the reason of a cancellation token

`RequestOwner::terminal_reason` and `cancel_with` of `src/execution.rs` over the request of a
cache, `src/execution/cache_request.rs`, and the first poll of an execution,
`src/execution/frame.rs`. Until the request is promoted its reason is the recorded one or else a
live view of the closing flag of the cache; afterwards it is the recorded one only. To read it
takes up to three loads, and to record one takes a read and a compare-exchange; whatever happens in
between is by anybody else.

* **`terminal_reason_stable`** — as long as nothing is recorded over a shutdown that the token
  shows already, nothing is promoted under it, and no reader is overtaken by both a record and the
  shutdown, whoever was told a reason is told the same one by every later call.
* **`reason_changes`** — a cancellation that read the reason before the cache closed and records
  its own afterwards.

The owned scope that follows a promotion records through `cancel_with` as everybody else does.
-/

namespace Amalgam

namespace Tokens

open Flights (Reason)

inductive Delivery where
  | firstPoll
  | owned
deriving DecidableEq

/-- The request of an execution and the closing flag of its cache. -/
structure Shared where
  /-- The state of the `Request`, zero being `none`. -/
  record : Option Reason
  delivery : Delivery
  closing : Bool
deriving DecidableEq

/-- Where a read of the reason stands: the load that comes next. -/
inductive Reading where
  | state
  | delivery
  | closing
deriving DecidableEq

/-- One load of `terminal_reason`: the load that comes next, or the answer. -/
def Reading.step (sh : Shared) : Reading → Reading ⊕ Option Reason
  | .state =>
    match sh.record with
    | some reason => .inr (some reason)
    | none => .inl .delivery
  | .delivery =>
    match sh.delivery with
    | .firstPoll => .inl .closing
    | .owned => .inr none
  | .closing => .inr (if sh.closing then some .cacheShutdown else none)

/-- What `terminal_reason` answers if nobody interferes. -/
def Shared.terminalReason (sh : Shared) : Option Reason :=
  match sh.record with
  | some reason => some reason
  | none =>
    match sh.delivery with
    | .firstPoll => if sh.closing then some .cacheShutdown else none
    | .owned => none

/-- `Request::cancel_with`. -/
def Shared.exchange (sh : Shared) (reason : Reason) : Shared :=
  match sh.record with
  | none => { sh with record := some reason }
  | some _ => sh

/-- Where a `cancel_with` stands. -/
inductive Cancelling where
  | reading (reason : Reason) (at_ : Reading)
  | exchange (reason : Reason)
deriving DecidableEq

def Cancelling.reason : Cancelling → Reason
  | .reading reason _ | .exchange reason => reason

/-- One access of `RequestOwner::cancel_with`; `none` when it has returned. -/
def Cancelling.step (sh : Shared) : Cancelling → Option Cancelling × Shared
  | .reading reason at_ =>
    match at_.step sh with
    | .inl at_ => (some (.reading reason at_), sh)
    | .inr found => (some (.exchange (found.getD reason)), sh)
  | .exchange reason => (none, sh.exchange reason)

/-- A call on some thread. -/
inductive CallPc where
  | idle
  /-- `reason()`, with what was answered to others before. -/
  | observing (before : List Reason) (at_ : Reading)
  | cancelling (at_ : Cancelling)
  /-- `CacheRequest::cancel`, that a shutdown delivers to an exported view. -/
  | linked (reason : Reason)

/-- The looks that `first_poll`, `complete` and `drop` take at the token. -/
inductive Look where
  | entry
  | exit_ (ready : Bool)
  | completed
  | dropped
deriving DecidableEq

/-- Where the inline frame stands. -/
inductive FramePc where
  | held
  | look (look : Look) (before : List Reason) (at_ : Reading)
  | poll
  /-- `complete` records the end of the scope. -/
  | complete (at_ : Cancelling)
  | promote
  /-- `drop` records its cause. -/
  | cause (at_ : Cancelling)
  | promoted
  | gone
  | unreachable

/-- What `first_poll` comes to. -/
inductive FirstPoll where
  | ready
  | cancelled (reason : Reason)
  | suspended
  | panicked
deriving DecidableEq

/-- A call of `reason()` that has returned. -/
structure Answered where
  before : List Reason
  answer : Option Reason

structure State where
  shared : Shared
  calls : Nat → CallPc
  frame : FramePc
  result : Option FirstPoll
  /-- Every reason that `reason()` has answered. -/
  answers : List Reason
  ledger : List Answered

inductive PollEnd where
  | ready
  | pending
  | panicked

inductive Action where
  /-- `Scopes::close`, its swap of the flag. -/
  | close
  | observe (call : Nat)
  | cancel (call : Nat) (reason : Reason)
  | link (call : Nat) (reason : Reason)
  | step (call : Nat)
  | firstPoll
  | drop
  /-- The frame goes on; `polled` is how the user's future comes back. -/
  | frame (polled : PollEnd)

namespace State

def setCall (s : State) (call : Nat) (pc : CallPc) : State :=
  { s with calls := Function.update s.calls call pc }

def answered (s : State) (before : List Reason) (answer : Option Reason) : State :=
  { s with
    answers := answer.toList ++ s.answers
    ledger := ⟨before, answer⟩ :: s.ledger }

end State

def stepCall (s : State) (call : Nat) : Option State :=
  match s.calls call with
  | .idle => none
  | .observing before at_ =>
    match at_.step s.shared with
    | .inl at_ => some (s.setCall call (.observing before at_))
    | .inr answer => some ((s.answered before answer).setCall call .idle)
  | .cancelling at_ =>
    match at_.step s.shared with
    | (some at_, shared) => some ({ s with shared }.setCall call (.cancelling at_))
    | (none, shared) => some ({ s with shared }.setCall call .idle)
  | .linked reason =>
    match s.shared.delivery with
    | .firstPoll => some (s.setCall call (.cancelling (.reading reason .state)))
    | .owned => some (s.setCall call .idle)

/-- `first_poll` has its result, and the frame is dropped with the work it still holds. -/
def State.dropFrame (s : State) (result : Option FirstPoll) : State :=
  { s with result, frame := .look .dropped s.answers .state }

/-- What the frame does about what it saw. -/
def looked (s : State) (answer : Option Reason) : Look → State
  | .entry =>
    match answer with
    | some reason => s.dropFrame (some (.cancelled reason))
    | none => { s with frame := .poll }
  | .exit_ ready =>
    match answer with
    | some reason => s.dropFrame (some (.cancelled reason))
    | none =>
      if ready then { s with frame := .complete (.reading .scopeFinished .state) }
      else { s with frame := .promote }
  | .completed =>
    match answer with
    | some .scopeFinished => s.dropFrame (some .ready)
    | some reason => s.dropFrame (some (.cancelled reason))
    | none => { s with frame := .unreachable }
  | .dropped =>
    { s with frame := .cause (.reading (answer.getD .callerDropped) .state) }

def stepFrame (s : State) (polled : PollEnd) : Option State :=
  match s.frame with
  | .held | .promoted | .gone | .unreachable => none
  | .look look before at_ =>
    match at_.step s.shared with
    | .inl at_ => some { s with frame := .look look before at_ }
    | .inr answer => some (looked (s.answered before answer) answer look)
  | .poll =>
    match polled with
    | .ready => some { s with frame := .look (.exit_ true) s.answers .state }
    | .pending => some { s with frame := .look (.exit_ false) s.answers .state }
    | .panicked => some (s.dropFrame (some .panicked))
  | .complete at_ =>
    match at_.step s.shared with
    | (some at_, shared) => some { s with shared, frame := .complete at_ }
    | (none, shared) => some { s with shared, frame := .look .completed s.answers .state }
  | .promote =>
    some { s with
      shared := { s.shared with delivery := .owned }
      result := some .suspended
      frame := .promoted }
  | .cause at_ =>
    match at_.step s.shared with
    | (some at_, shared) => some { s with shared, frame := .cause at_ }
    | (none, shared) => some { s with shared, frame := .gone }

/-- A call begins. -/
def begin_ (s : State) (call : Nat) (pc : CallPc) : Option State :=
  match s.calls call with
  | .idle => some (s.setCall call pc)
  | _ => none

def next (s : State) : Action → Option State
  | .close => some { s with shared := { s.shared with closing := true } }
  | .observe call => begin_ s call (.observing s.answers .state)
  | .cancel call reason => begin_ s call (.cancelling (.reading reason .state))
  | .link call reason => begin_ s call (.linked reason)
  | .step call => stepCall s call
  | .firstPoll =>
    match s.frame with
    | .held => some { s with frame := .look .entry s.answers .state }
    | _ => none
  | .drop =>
    match s.frame with
    | .held => some (s.dropFrame none)
    | _ => none
  | .frame polled => stepFrame s polled

/-- An execution that was just made by `ready_execution`. -/
def init : State where
  shared := ⟨none, .firstPoll, false⟩
  calls := fun _ => .idle
  frame := .held
  result := none
  answers := []
  ledger := []

/-! ## What keeps a reason -/

/-- A reader that is at the load of the flag and finds it set is not overtaken by a record. -/
def CalmReading (sh : Shared) : Reading → Prop
  | .closing => sh.closing = true → sh.terminalReason = some .cacheShutdown
  | .state | .delivery => True

/-- Nothing but the shutdown is recorded where the token shows the shutdown. -/
def CalmExchange (sh : Shared) : Cancelling → Prop
  | .exchange reason => sh.record = none → sh.terminalReason = some .cacheShutdown →
    reason = .cacheShutdown
  | .reading _ _ => True

/-- The step takes no reason back that somebody may have been told. -/
def Calm (s : State) : Action → Prop
  | .step call =>
    match s.calls call with
    | .observing _ at_ => CalmReading s.shared at_
    | .cancelling at_ => CalmExchange s.shared at_
    | .idle | .linked _ => True
  | .frame _ =>
    match s.frame with
    | .look _ _ at_ => CalmReading s.shared at_
    | .complete at_ | .cause at_ => CalmExchange s.shared at_
    -- What was recorded stays visible, unless a reader has already looked for a record in vain.
    | .promote => s.shared.closing = true →
        s.shared.record ≠ none ∧ ∀ call before, s.calls call ≠ .observing before .delivery
    | .held | .poll | .promoted | .gone | .unreachable => True
  | .close | .observe _ | .cancel _ _ | .link _ _ | .firstPoll | .drop => True

/-- Whoever asks after a reason was answered is answered that reason. -/
def Stable (s : State) : Prop :=
  ∀ call ∈ s.ledger, ∀ reason ∈ call.before, call.answer = some reason

/-- What was answered is recorded, or it is the shutdown that the view shows. -/
def Settled (sh : Shared) (answers : List Reason) : Prop :=
  ∀ reason ∈ answers, sh.record = some reason ∨
    reason = .cacheShutdown ∧ sh.record = none ∧ sh.closing = true ∧ sh.delivery = .firstPoll

/-- A reader that began after an answer and found nothing recorded is about to see the same. -/
structure Reader (sh : Shared) (answers before : List Reason) (at_ : Reading) : Prop where
  known : ∀ reason ∈ before, reason ∈ answers
  past : before ≠ [] → at_ ≠ .state →
    sh.closing = true ∧ ∀ reason ∈ before, reason = .cacheShutdown
  view : before ≠ [] → at_ = .delivery → sh.delivery = .firstPoll

variable {sh sh' : Shared} {answers before : List Reason} {at_ : Reading} {s t : State}

theorem Reader.begin_ (sh : Shared) (answers : List Reason) :
    Reader sh answers answers .state :=
  ⟨fun _ h => h, fun _ h => absurd rfl h, fun _ => nofun⟩

theorem Reader.grow (h : Reader sh answers before at_) (more : List Reason) :
    Reader sh (more ++ answers) before at_ :=
  ⟨fun reason hr => List.mem_append_right _ (h.known reason hr), h.past, h.view⟩

theorem Reader.keep (h : Reader sh answers before at_)
    (hclosing : sh.closing = true → sh'.closing = true)
    (hdelivery : at_ = .delivery → sh'.delivery = sh.delivery) : Reader sh' answers before at_ where
  known := h.known
  past := fun hb ha => ⟨hclosing (h.past hb ha).1, (h.past hb ha).2⟩
  view := fun hb ha => (hdelivery ha).trans (h.view hb ha)

/-- The next load finds nothing. -/
theorem Reader.goOn (h : Reader sh answers before at_) (hs : Settled sh answers) {next : Reading}
    (hstep : at_.step sh = .inl next) : Reader sh answers before next := by
  cases at_ with
  | state =>
    unfold Reading.step at hstep
    dsimp only at hstep
    split at hstep
    · cases hstep
    · rename_i hnone
      obtain rfl := Sum.inl.inj hstep
      -- Nothing is recorded, so what was answered is the view of the flag.
      have hview : ∀ reason ∈ before,
          reason = .cacheShutdown ∧ sh.closing = true ∧ sh.delivery = .firstPoll := fun r hr => by
        rcases hs r (h.known r hr) with hrecord | ⟨hr, -, hclosing, hdelivery⟩
        · exact absurd (hnone.symm.trans hrecord) nofun
        · exact ⟨hr, hclosing, hdelivery⟩
      refine ⟨h.known, fun hb _ => ?_, fun hb _ => ?_⟩ <;>
      obtain ⟨r, hr⟩ := List.exists_mem_of_ne_nil before hb
      · exact ⟨(hview r hr).2.1, fun reason hreason => (hview reason hreason).1⟩
      · exact (hview r hr).2.2
  | delivery =>
    unfold Reading.step at hstep
    dsimp only at hstep
    split at hstep
    · obtain rfl := Sum.inl.inj hstep
      exact ⟨h.known, fun hb _ => h.past hb nofun, fun _ => nofun⟩
    · cases hstep
  | closing => cases hstep

/-- The deciding load answers what was answered before, and what will be from now on. -/
theorem Reader.answer (h : Reader sh answers before at_) (hs : Settled sh answers)
    (hcalm : CalmReading sh at_) {answer : Option Reason} (hstep : at_.step sh = .inr answer) :
    (∀ reason ∈ before, answer = some reason) ∧ Settled sh (answer.toList ++ answers) := by
  cases at_ with
  | state =>
    unfold Reading.step at hstep
    dsimp only at hstep
    split at hstep
    · rename_i found hrecord
      obtain rfl := Sum.inr.inj hstep
      have hsame : ∀ reason ∈ answers, some found = some reason := fun reason hr => by
        rcases hs reason hr with hfound | ⟨-, hnone, -⟩
        · exact hrecord.symm.trans hfound
        · exact absurd (hrecord.symm.trans hnone) nofun
      refine ⟨fun reason hr => hsame reason (h.known reason hr), fun reason hr => ?_⟩
      rcases List.mem_cons.mp hr with rfl | hold
      · exact .inl hrecord
      · exact hs reason hold
    · cases hstep
  | delivery =>
    unfold Reading.step at hstep
    dsimp only at hstep
    split at hstep
    · cases hstep
    · rename_i howned
      obtain rfl := Sum.inr.inj hstep
      refine ⟨fun reason hr => ?_, hs⟩
      have hview := h.view (List.ne_nil_of_mem hr) rfl
      exact absurd (howned.symm.trans hview) nofun
  | closing =>
    obtain rfl := Sum.inr.inj hstep
    have hpast : ∀ reason ∈ before, sh.closing = true ∧ reason = .cacheShutdown :=
      fun reason hr =>
        have hpast := h.past (List.ne_nil_of_mem hr) nofun
        ⟨hpast.1, hpast.2 reason hr⟩
    refine ⟨fun reason hr => ?_, ?_⟩
    · obtain ⟨hclosing, rfl⟩ := hpast reason hr
      rw [if_pos hclosing]
    · split
      · rename_i hclosing
        have hshown : sh.record = some .cacheShutdown ∨
            (Reason.cacheShutdown = .cacheShutdown ∧ sh.record = none ∧ sh.closing = true ∧
              sh.delivery = .firstPoll) := by
          have hcalm := hcalm hclosing
          unfold Shared.terminalReason at hcalm
          split at hcalm
          · rename_i found hrecord
            exact .inl (hrecord.trans hcalm)
          · rename_i hnone
            split at hcalm
            · rename_i hfirst
              exact .inr ⟨rfl, hnone, hclosing, hfirst⟩
            · cases hcalm
        intro reason hr
        rcases List.mem_cons.mp hr with rfl | hold
        · exact hshown
        · exact hs reason hold
      · exact hs

theorem exchange_closing (sh : Shared) (reason : Reason) :
    (sh.exchange reason).closing = sh.closing := by
  unfold Shared.exchange
  split <;> rfl

theorem exchange_delivery (sh : Shared) (reason : Reason) :
    (sh.exchange reason).delivery = sh.delivery := by
  unfold Shared.exchange
  split <;> rfl

theorem Settled.exchange (h : Settled sh answers) {reason : Reason}
    (hcalm : CalmExchange sh (.exchange reason)) : Settled (sh.exchange reason) answers := by
  intro found hfound
  unfold Shared.exchange
  split
  · rename_i hnone
    refine .inl ?_
    rcases h found hfound with hrecord | ⟨rfl, -, hclosing, hdelivery⟩
    · exact absurd (hnone.symm.trans hrecord) nofun
    · have hshown : sh.terminalReason = some .cacheShutdown := by
        unfold Shared.terminalReason
        rw [hnone, hdelivery, hclosing]
        rfl
      rw [hcalm hnone hshown]
  · exact h found hfound

/-- A `cancel_with` goes on, and what was answered stays. -/
theorem Cancelling.step_keeps {at_ : Cancelling} (hs : Settled sh answers)
    (hcalm : CalmExchange sh at_) {goesOn : Option Cancelling} (hstep : at_.step sh = (goesOn, sh')) :
    Settled sh' answers ∧ sh'.closing = sh.closing ∧ sh'.delivery = sh.delivery := by
  cases at_ with
  | reading reason at_ =>
    unfold Cancelling.step at hstep
    dsimp only at hstep
    split at hstep <;> obtain ⟨-, rfl⟩ := Prod.mk.inj hstep <;> exact ⟨hs, rfl, rfl⟩
  | exchange reason =>
    obtain ⟨-, rfl⟩ := Prod.mk.inj hstep
    exact ⟨hs.exchange hcalm, exchange_closing sh reason, exchange_delivery sh reason⟩

/-! ## The invariant -/

structure Told (s : State) : Prop where
  settled : Settled s.shared s.answers
  calls : ∀ call before at_, s.calls call = .observing before at_ →
    Reader s.shared s.answers before at_
  frame : ∀ look before at_, s.frame = .look look before at_ →
    Reader s.shared s.answers before at_
  stable : Stable s

theorem Told.init : Told init where
  settled := nofun
  calls := nofun
  frame := nofun
  stable := nofun

theorem Told.setCall (h : Told s) (call : Nat) {pc : CallPc}
    (hpc : ∀ before at_, pc = .observing before at_ → Reader s.shared s.answers before at_) :
    Told (s.setCall call pc) := by
  refine { h with calls := fun other before at_ hother => ?_ }
  have hother : Function.update s.calls call pc other = .observing before at_ := hother
  rw [Function.update_apply] at hother
  split at hother
  · exact hpc before at_ hother
  · exact h.calls other before at_ hother

theorem Told.setFrame (h : Told s) {frame : FramePc}
    (hframe : ∀ look before at_, frame = .look look before at_ →
      Reader s.shared s.answers before at_) (result : Option FirstPoll) :
    Told { s with frame, result } :=
  { h with frame := hframe }

theorem Told.answered (h : Told s) {answer : Option Reason}
    (hbefore : ∀ reason ∈ before, answer = some reason)
    (hsettled : Settled s.shared (answer.toList ++ s.answers)) : Told (s.answered before answer) where
  settled := hsettled
  calls := fun call before at_ hcall => (h.calls call before at_ hcall).grow _
  frame := fun look before at_ hframe => (h.frame look before at_ hframe).grow _
  stable := fun call hcall => by
    rcases List.mem_cons.mp hcall with rfl | hold
    · exact hbefore
    · exact h.stable call hold

/-- The request changes, and no reader is at a load that the change concerns. -/
theorem Told.share (h : Told s) {shared : Shared} (hsettled : Settled shared s.answers)
    (hclosing : s.shared.closing = true → shared.closing = true)
    (hdelivery : shared.delivery = s.shared.delivery) : Told { s with shared } where
  settled := hsettled
  calls := fun call before at_ hcall =>
    (h.calls call before at_ hcall).keep hclosing fun _ => hdelivery
  frame := fun look before at_ hframe =>
    (h.frame look before at_ hframe).keep hclosing fun _ => hdelivery
  stable := h.stable

theorem Told.stepCall (h : Told s) {call : Nat} (hcalm : Calm s (.step call))
    (hnext : stepCall s call = some t) : Told t := by
  unfold Tokens.stepCall at hnext
  cases hpc : s.calls call with
  | idle =>
    rw [hpc] at hnext
    cases hnext
  | observing before at_ =>
    rw [hpc] at hnext
    have hreader := h.calls call before at_ hpc
    have hcalm : CalmReading s.shared at_ := by simpa only [Calm, hpc] using hcalm
    dsimp only at hnext
    split at hnext <;> rename_i hstep <;> obtain rfl := Option.some.inj hnext
    · refine h.setCall call fun before' at' hpc' => ?_
      obtain ⟨rfl, rfl⟩ := CallPc.observing.inj hpc'
      exact hreader.goOn h.settled hstep
    · obtain ⟨hbefore, hsettled⟩ := hreader.answer h.settled hcalm hstep
      exact (h.answered hbefore hsettled).setCall call nofun
  | cancelling at_ =>
    rw [hpc] at hnext
    have hcalm : CalmExchange s.shared at_ := by simpa only [Calm, hpc] using hcalm
    dsimp only at hnext
    split at hnext <;> rename_i hstep <;> obtain rfl := Option.some.inj hnext <;>
    obtain ⟨hsettled, hclosing, hdelivery⟩ := Cancelling.step_keeps h.settled hcalm hstep <;>
    exact (h.share hsettled (fun hc => hclosing.trans hc) hdelivery).setCall call nofun
  | linked reason =>
    rw [hpc] at hnext
    dsimp only at hnext
    split at hnext <;> obtain rfl := Option.some.inj hnext <;> exact h.setCall call nofun

theorem Told.look (h : Told s) {frame : FramePc} {look : Look} (result : Option FirstPoll)
    (hframe : frame = .look look s.answers .state) : Told { s with frame, result } := by
  refine h.setFrame (fun look' before at_ hlook => ?_) result
  obtain ⟨rfl, rfl, rfl⟩ := FramePc.look.inj (hframe.symm.trans hlook)
  exact Reader.begin_ s.shared s.answers

/-- Whatever the frame does about what it saw. -/
theorem Told.looked (h : Told s) (answer : Option Reason) (look : Look) :
    Told (looked s answer look) := by
  cases look with
  | entry =>
    cases answer with
    | some reason => exact h.look _ rfl
    | none => exact h.setFrame (fun _ _ _ hlook => by cases hlook) s.result
  | exit_ ready =>
    cases answer with
    | some reason => exact h.look _ rfl
    | none =>
      unfold Tokens.looked
      dsimp only
      split <;> exact h.setFrame (fun _ _ _ hlook => by cases hlook) s.result
  | completed =>
    unfold Tokens.looked
    dsimp only
    split
    · exact h.look _ rfl
    · exact h.look _ rfl
    · exact h.setFrame (fun _ _ _ hlook => by cases hlook) s.result
  | dropped => exact h.setFrame (fun _ _ _ hlook => by cases hlook) s.result

theorem Told.stepFrame (h : Told s) {polled : PollEnd} (hcalm : Calm s (.frame polled))
    (hnext : stepFrame s polled = some t) : Told t := by
  unfold Tokens.stepFrame at hnext
  cases hpc : s.frame with
  | held | promoted | gone | unreachable =>
    rw [hpc] at hnext
    cases hnext
  | look look before at_ =>
    rw [hpc] at hnext
    have hreader := h.frame look before at_ hpc
    have hcalm : CalmReading s.shared at_ := by simpa only [Calm, hpc] using hcalm
    dsimp only at hnext
    split at hnext <;> rename_i hstep <;> obtain rfl := Option.some.inj hnext
    · refine h.setFrame (fun look' before' at' hpc' => ?_) s.result
      obtain ⟨rfl, rfl, rfl⟩ := FramePc.look.inj hpc'
      exact hreader.goOn h.settled hstep
    · obtain ⟨hbefore, hsettled⟩ := hreader.answer h.settled hcalm hstep
      exact (h.answered hbefore hsettled).looked _ look
  | poll =>
    rw [hpc] at hnext
    cases polled <;> obtain rfl := Option.some.inj hnext <;> exact h.look _ rfl
  | complete at_ =>
    rw [hpc] at hnext
    have hcalm : CalmExchange s.shared at_ := by simpa only [Calm, hpc] using hcalm
    dsimp only at hnext
    split at hnext <;> rename_i hstep <;> obtain rfl := Option.some.inj hnext <;>
    obtain ⟨hsettled, hclosing, hdelivery⟩ := Cancelling.step_keeps h.settled hcalm hstep
    · exact (h.share hsettled (fun hc => hclosing.trans hc) hdelivery).setFrame (fun _ _ _ hlook => by cases hlook) s.result
    · exact (h.share hsettled (fun hc => hclosing.trans hc) hdelivery).look s.result rfl
  | promote =>
    rw [hpc] at hnext
    have hcalm : s.shared.closing = true →
        s.shared.record ≠ none ∧ ∀ call before, s.calls call ≠ .observing before .delivery := by
      simpa only [Calm, hpc] using hcalm
    obtain rfl := Option.some.inj hnext
    refine ⟨fun reason hr => ?_, fun call before at_ hcall => ?_, nofun, h.stable⟩
    · refine .inl ((h.settled reason hr).resolve_right fun hview => ?_)
      exact (hcalm hview.2.2.1).1 hview.2.1
    · have hreader := h.calls call before at_ hcall
      refine ⟨hreader.known, hreader.past, fun hb hat => ?_⟩
      -- A reader at this load began after an answer, so the cache is closed.
      subst hat
      have hclosing := (hreader.past hb nofun).1
      exact absurd hcall ((hcalm hclosing).2 call before)
  | cause at_ =>
    rw [hpc] at hnext
    have hcalm : CalmExchange s.shared at_ := by simpa only [Calm, hpc] using hcalm
    dsimp only at hnext
    split at hnext <;> rename_i hstep <;> obtain rfl := Option.some.inj hnext <;>
    obtain ⟨hsettled, hclosing, hdelivery⟩ := Cancelling.step_keeps h.settled hcalm hstep <;>
    exact (h.share hsettled (fun hc => hclosing.trans hc) hdelivery).setFrame (fun _ _ _ hlook => by cases hlook) s.result

theorem Told.begin_ (h : Told s) {call : Nat} {pc : CallPc}
    (hpc : ∀ before at_, pc = .observing before at_ → Reader s.shared s.answers before at_)
    (hnext : begin_ s call pc = some t) : Told t := by
  unfold Tokens.begin_ at hnext
  split at hnext
  · obtain rfl := Option.some.inj hnext
    exact h.setCall call hpc
  · cases hnext

theorem Told.next (h : Told s) {a : Action} (hcalm : Calm s a) (hnext : next s a = some t) :
    Told t := by
  cases a with
  | close =>
    obtain rfl := Option.some.inj hnext
    refine h.share (fun reason hr => ?_) (fun _ => rfl) rfl
    exact (h.settled reason hr).imp id fun hview => ⟨hview.1, hview.2.1, rfl, hview.2.2.2⟩
  | observe call =>
    refine h.begin_ (fun before at_ hpc => ?_) hnext
    obtain ⟨rfl, rfl⟩ := CallPc.observing.inj hpc
    exact Reader.begin_ s.shared s.answers
  | cancel call reason => exact h.begin_ (fun _ _ hpc => by cases hpc) hnext
  | link call reason => exact h.begin_ (fun _ _ hpc => by cases hpc) hnext
  | step call => exact h.stepCall hcalm hnext
  | firstPoll =>
    unfold Tokens.next at hnext
    dsimp only at hnext
    split at hnext
    · obtain rfl := Option.some.inj hnext
      exact h.look s.result rfl
    · cases hnext
  | drop =>
    unfold Tokens.next at hnext
    dsimp only at hnext
    split at hnext
    · obtain rfl := Option.some.inj hnext
      exact h.look none rfl
    · cases hnext
  | frame polled => exact h.stepFrame hcalm hnext

theorem terminal_reason_stable {as : List Action} {s : State}
    (hexec : Run.exec next init as = some s) (hcalm : Run.Along next Calm init as) : Stable s :=
  (Run.exec_invariant_along (I := Told) (fun _ _ _ hs hc hn => hs.next hc hn) Told.init hcalm
    hexec).stable

/-- A cancellation is recorded, and two readers are told it. -/
theorem terminal_reason_stable_cancelled : ∃ s : State,
    Run.exec next init
      [.cancel 0 .callerCancelled, .step 0, .step 0, .step 0, .step 0, .observe 1, .step 1,
        .observe 1, .step 1] = some s ∧ s.answers.length = 2 ∧ Stable s := by
  refine ⟨_, rfl, rfl, @terminal_reason_stable
    [.cancel 0 .callerCancelled, .step 0, .step 0, .step 0, .step 0, .observe 1, .step 1,
      .observe 1, .step 1] _ rfl ?_⟩
  refine Run.along_cons trivial rfl (Run.along_cons trivial rfl (Run.along_cons trivial rfl
    (Run.along_cons trivial rfl (Run.along_cons ?_ rfl ?_))))
  · exact fun _ hshown => by cases hshown
  · exact Run.along_cons trivial rfl (Run.along_cons trivial rfl (Run.along_cons trivial rfl
      (Run.along_cons trivial rfl (Run.along_nil _ _))))

/-- Call 0 finds no reason; the cache closes and call 1 is told so; then call 0 records its own
reason, and call 1 is told that one. -/
theorem reason_changes : ¬ ∀ (as : List Action) (s : State),
    Run.exec next init as = some s → Stable s := by
  intro h
  have hstable := h [.cancel 0 .callerCancelled, .step 0, .step 0, .step 0, .close, .observe 1,
    .step 1, .step 1, .step 1, .step 0, .observe 1, .step 1] _ rfl
  have hanswer := hstable ⟨[.cacheShutdown], some .callerCancelled⟩ List.mem_cons_self
    .cacheShutdown List.mem_cons_self
  cases hanswer

end Tokens

end Amalgam
