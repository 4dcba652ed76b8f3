import HartScope.Hart.Step
import HartScope.Proofs.Trace.Activations

/-!
Balanced executions leave the call tracer where it was.  On the stack of activations a function
pushes nothing but tail calls on top of its own activation, and its return pops these together with
it; so a complete call leaves the stack, whatever is still pending below.
-/

namespace HartScope

mutual

/-- Complete calls, one after the other: the call itself, what the function does, and its return. -/
inductive Execution where
  | nil
  | call (site target : UInt64) (body : Body) (exit back : UInt64) (rest : Execution)

/-- What a function does before it returns.  Complete calls may be followed by a tail call, and then
the return is that of the function called last. -/
inductive Body where
  | calls (execution : Execution)
  | tailCall (execution : Execution) (site target : UInt64) (body : Body)

end

mutual

def Execution.events : Execution → List TransferEvent
  | .nil => []
  | .call site target body exit back rest =>
      ⟨.call, site, target⟩ :: (body.events ++ ⟨.ret, exit, back⟩ :: rest.events)

def Body.events : Body → List TransferEvent
  | .calls execution => execution.events
  | .tailCall execution site target body =>
      execution.events ++ ⟨.tailCall, site, target⟩ :: body.events

end

/-- The sites of the tail calls that a return from the function completes, latest first. -/
def Body.sites : Body → List UInt64
  | .calls _ => []
  | .tailCall _ site _ body => body.sites ++ [site]

/-- How many functions the events enter, by calls and by tail calls. -/
def TransferEvent.entries (events : List TransferEvent) : Nat :=
  events.countP (·.transfer != .ret)

theorem TransferEvent.entries_append (early late : List TransferEvent) :
    entries (early ++ late) = entries early + entries late :=
  List.countP_append

/-- The event of a retired word, if it transfers control to or from a function. -/
def StepContext.transferEvent? (symbols : SymbolTable) (context : StepContext) :
    Option TransferEvent :=
  (Transfer.classify? context.word context.continuation symbols).map fun transfer =>
    ⟨transfer, context.pc, context.continuation⟩

namespace CallTracer

section

variable {σ : Type} (record : σ → TransferEvent → List String × σ)

/-- The lines that returns cause. -/
def returnLines : σ → List TransferEvent → List String
  | _, [] => []
  | state, event :: rest =>
      let (lines, state) := record state event
      (if event.transfer = .ret then lines else []) ++ returnLines state rest

theorem recordAll_append (state : σ) (early late : List TransferEvent) :
    (recordAll record state (early ++ late)).2 =
      (recordAll record (recordAll record state early).2 late).2 := by
  induction early generalizing state with
  | nil => rfl
  | cons event rest ih => exact ih (record state event).2

theorem returnLines_append (state : σ) (early late : List TransferEvent) :
    returnLines record state (early ++ late) =
      returnLines record state early ++
        returnLines record (recordAll record state early).2 late := by
  induction early generalizing state with
  | nil => rfl
  | cons event rest ih =>
      simp only [List.cons_append, returnLines, recordAll, ih, List.append_assoc]

end

theorem returnLines_ofStack (symbols : SymbolTable) (stack : List Activation)
    (events : List TransferEvent) :
    returnLines (recordEvent symbols) (ofStack stack) events =
      returnLines (Activation.record symbols) stack events := by
  induction events generalizing stack with
  | nil => rfl
  | cons event rest ih => simp only [returnLines, recordEvent_ofStack, ih]

/-- Traces a sequence of retired words. -/
def trace (symbols : SymbolTable) : CallTracer → List StepContext → List String × CallTracer
  | tracer, [] => ([], tracer)
  | tracer, context :: rest =>
      let (lines, tracer) := step symbols tracer context.pc context.word context.continuation
      let (later, tracer) := trace symbols tracer rest
      (lines ++ later, tracer)

theorem trace_eq_recordAll (symbols : SymbolTable) (tracer : CallTracer)
    (contexts : List StepContext) :
    trace symbols tracer contexts =
      recordAll (recordEvent symbols) tracer
        (contexts.filterMap (StepContext.transferEvent? symbols)) := by
  induction contexts generalizing tracer with
  | nil => rfl
  | cons context rest ih =>
      cases transfer : Transfer.classify? context.word context.continuation symbols with
      | none =>
          have silent : context.transferEvent? symbols = none := by
            simp [StepContext.transferEvent?, transfer]
          simp only [trace, step, transfer, List.nil_append, List.filterMap_cons_none silent, ih]
      | some kind =>
          have event : context.transferEvent? symbols =
              some ⟨kind, context.pc, context.continuation⟩ := by
            simp [StepContext.transferEvent?, transfer]
          simp only [trace, step, transfer, List.filterMap_cons_some event, recordAll, recordEvent,
            ih]

/-- The tracers that come out of recording, whatever symbols are in use at the time. -/
inductive Reachable : CallTracer → Prop where
  | start : Reachable {}
  | record {tracer : CallTracer} (reached : Reachable tracer) (symbols : SymbolTable)
      (event : TransferEvent) : Reachable (recordEvent symbols tracer event).2

theorem Reachable.exists_stack {tracer : CallTracer} (reached : tracer.Reachable) :
    ∃ stack, tracer = ofStack stack := by
  induction reached with
  | start => exact ⟨[], rfl⟩
  | record reached symbols event ih =>
      obtain ⟨stack, rfl⟩ := ih
      exact ⟨_, congrArg Prod.snd (recordEvent_ofStack symbols stack event)⟩

end CallTracer

namespace Activation

open CallTracer

/-- The events lead from one stack to the other and leave the base alone on the way.  Each
activation that they push and pop again is worth a line of its return. -/
structure Leads (symbols : SymbolTable) (base before : List Activation)
    (events : List TransferEvent) (after : List Activation) : Prop where
  final : (recordAll (record symbols) before events).2 = after
  count : (returnLines (record symbols) before events).length + after.length =
    before.length + TransferEvent.entries events
  above : ∀ early late, events = early ++ late →
    base <:+ (recordAll (record symbols) before early).2

variable {symbols : SymbolTable} {base before between after : List Activation}
  {early late : List TransferEvent}

theorem Leads.refl (symbols : SymbolTable) (stack : List Activation) :
    Leads symbols stack stack [] stack where
  final := rfl
  count := Nat.zero_add _
  above early late split := by
    rw [(List.append_eq_nil_iff.mp split.symm).1]
    exact List.suffix_refl stack

theorem Leads.weaken {lower : List Activation} (leads : Leads symbols base before early after)
    (suffix : lower <:+ base) : Leads symbols lower before early after where
  final := leads.final
  count := leads.count
  above first rest split := suffix.trans (leads.above first rest split)

theorem Leads.append (first : Leads symbols base before early between)
    (second : Leads symbols base between late after) :
    Leads symbols base before (early ++ late) after where
  final := by rw [recordAll_append, first.final, second.final]
  count := by
    have firstCount := first.count
    have secondCount := second.count
    rw [returnLines_append, first.final, List.length_append, TransferEvent.entries_append]
    omega
  above start rest split := by
    rw [List.append_eq_append_iff] at split
    obtain ⟨more, rfl, behind⟩ | ⟨more, ahead, _⟩ := split
    · rw [recordAll_append, first.final]
      exact second.above more rest behind
    · exact first.above start more ahead

theorem leads_event {event : TransferEvent} (below : base <:+ before) (kept : base <:+ after)
    (recorded : (record symbols before event).2 = after)
    (count : (if event.transfer = .ret then (record symbols before event).1 else []).length +
      after.length = before.length + TransferEvent.entries [event]) :
    Leads symbols base before [event] after where
  final := recorded
  count := by
    simp only [returnLines, List.append_nil]
    exact count
  above early late split := by
    rcases List.singleton_eq_append_iff.mp split with ⟨rfl, _⟩ | ⟨rfl, _⟩
    · exact below
    · exact recorded ▸ kept

theorem leads_call (symbols : SymbolTable) (stack : List Activation) (site target : UInt64) :
    Leads symbols stack stack [⟨.call, site, target⟩] (.called :: stack) :=
  leads_event (List.suffix_refl stack) (List.suffix_cons _ stack) rfl (Nat.zero_add _)

theorem leads_tailCall (symbols : SymbolTable) (stack : List Activation) (site target : UInt64) :
    Leads symbols stack stack [⟨.tailCall, site, target⟩] (.tailCalled site :: stack) :=
  leads_event (List.suffix_refl stack) (List.suffix_cons _ stack) rfl (Nat.zero_add _)

/-- A return pops the tail calls on top and the call that entered the function below them. -/
theorem unwind_sites (symbols : SymbolTable) (sites : List UInt64) (pc : UInt64)
    (rest : List Activation) :
    (unwind symbols pc (sites.map .tailCalled ++ .called :: rest)).2 = rest ∧
      (unwind symbols pc (sites.map .tailCalled ++ .called :: rest)).1.length =
        sites.length + 1 := by
  induction sites generalizing pc with
  | nil => exact ⟨rfl, rfl⟩
  | cons site sites ih =>
      obtain ⟨popped, lines⟩ := ih site
      exact ⟨popped, congrArg (· + 1) lines⟩

theorem leads_return (symbols : SymbolTable) (stack : List Activation) (sites : List UInt64)
    (exit back : UInt64) :
    Leads symbols stack (sites.map .tailCalled ++ .called :: stack) [⟨.ret, exit, back⟩] stack := by
  obtain ⟨popped, lines⟩ := unwind_sites symbols sites exit stack
  refine leads_event ?_ (List.suffix_refl stack) popped ?_
  · exact (List.suffix_cons _ stack).trans (List.suffix_append _ _)
  · simp only [record, if_true, lines, List.length_append, List.length_map, List.length_cons]
    exact Nat.add_right_comm sites.length 1 stack.length

mutual

theorem leads_execution (symbols : SymbolTable) (stack : List Activation) :
    (execution : Execution) → Leads symbols stack stack execution.events stack
  | .nil => .refl symbols stack
  | .call site target body exit back rest =>
      have entered := leads_call symbols stack site target
      -- The body works above the activation that the call pushed, and so above the stack.
      have done := (leads_body symbols (.called :: stack) body).weaken (List.suffix_cons _ stack)
      have returned := leads_return symbols stack body.sites exit back
      have remaining := leads_execution symbols stack rest
      entered.append (done.append (returned.append remaining))

/-- On top of the activation that a function was entered with it leaves its tail calls. -/
theorem leads_body (symbols : SymbolTable) (stack : List Activation) :
    (body : Body) →
      Leads symbols stack stack body.events (body.sites.map .tailCalled ++ stack)
  | .calls execution => leads_execution symbols stack execution
  | .tailCall execution site target body => by
      have completed := leads_execution symbols stack execution
      have entered := leads_tailCall symbols stack site target
      have done :=
        (leads_body symbols (.tailCalled site :: stack) body).weaken (List.suffix_cons _ stack)
      have top : body.sites.map .tailCalled ++ .tailCalled site :: stack =
          (body.sites ++ [site]).map .tailCalled ++ stack := by simp
      rw [top] at done
      exact completed.append (entered.append done)

end

end Activation

namespace CallTracer

/-- Whatever the tracer has recorded before, a balanced execution leaves it as it was, causes as
many lines of returns as it makes calls and tail calls, and never brings the depth below where it
started.  The same holds of retired words whose transfers are those of a balanced execution. -/
theorem balanced_execution_restores (symbols : SymbolTable) {start : CallTracer}
    (reached : start.Reachable) (execution : Execution) :
    (recordAll (recordEvent symbols) start execution.events).2 = start ∧
      (returnLines (recordEvent symbols) start execution.events).length =
        TransferEvent.entries execution.events ∧
      (∀ early late, execution.events = early ++ late →
        start.depth ≤ (recordAll (recordEvent symbols) start early).2.depth) ∧
      ∀ contexts : List StepContext,
        contexts.filterMap (StepContext.transferEvent? symbols) = execution.events →
          trace symbols start contexts =
              recordAll (recordEvent symbols) start execution.events ∧
            ∀ early late, contexts = early ++ late →
              start.depth ≤ (trace symbols start early).2.depth := by
  obtain ⟨stack, rfl⟩ := reached.exists_stack
  have leads := Activation.leads_execution symbols stack execution
  have above : ∀ early late, execution.events = early ++ late →
      (ofStack stack).depth ≤ (recordAll (recordEvent symbols) (ofStack stack) early).2.depth := by
    intro early late split
    rw [recordAll_ofStack]
    exact (leads.above early late split).length_le
  refine ⟨?_, ?_, above, ?_⟩
  · rw [recordAll_ofStack, leads.final]
  · have count := leads.count
    rw [returnLines_ofStack]
    omega
  · intro contexts transfers
    refine ⟨by rw [trace_eq_recordAll, transfers], ?_⟩
    rintro early late rfl
    rw [trace_eq_recordAll]
    rw [List.filterMap_append] at transfers
    exact above _ _ transfers.symm

/-- A call of a function that calls another one and then ends in a tail call. -/
def relayedCall : Execution :=
  .call 0x100 0x200
    (.tailCall (.call 0x204 0x300 (.calls .nil) 0x310 0x208 .nil) 0x208 0x400 (.calls .nil))
    0x410 0x104 .nil

/-- A word for each kind of transfer; the address where it continues is up to the context. -/
def transferWord : Transfer → UInt32
  | .call => 0x000000EF
  | .tailCall => 0x00028067
  | .ret => 0x00008067

theorem relayed_call_leaves_older_tailCall :
    let symbols := SymbolTable.ofList [⟨"relay", 0x200, 0x300⟩]
    let start : CallTracer := ⟨1, [⟨0x50, 0⟩]⟩
    let contexts : List StepContext := relayedCall.events.map fun event =>
      ⟨event.pc, transferWord event.transfer, event.pc + 4, event.target⟩
    (trace symbols start contexts).2 = start ∧
      (returnLines (recordEvent symbols) start relayedCall.events).length = 3 := by
  intro symbols start contexts
  have reached : start.Reachable := .record .start symbols ⟨.tailCall, 0x50, 0x60⟩
  have transfers : contexts.filterMap (StepContext.transferEvent? symbols) =
      relayedCall.events := by
    decide +kernel
  obtain ⟨restored, returned, _, traced⟩ :=
    balanced_execution_restores symbols reached relayedCall
  obtain ⟨same, _⟩ := traced contexts transfers
  exact ⟨same ▸ restored, returned⟩

end CallTracer

end HartScope
