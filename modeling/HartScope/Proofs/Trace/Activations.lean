import HartScope.Trace.Calls

/-!
The call tracer as a stack of activations.  The tracer keeps a counter and a list of tail-call sites;
together they stand for a stack that records of each function whether a call or a tail call entered
it.  The counter is the height, and the sites are the activations that a tail call entered, each with
the height at which it stands.  So a site's depth equals the counter exactly when the activation that
has just been popped was entered from it.
-/

namespace HartScope

/-- How a function was entered. -/
inductive Activation where
  | called
  | tailCalled (site : UInt64)
deriving DecidableEq, Repr

structure TransferEvent where
  transfer : Transfer
  pc : UInt64
  target : UInt64
deriving DecidableEq, Repr

namespace Activation

/-- A return at `pc` from the activation on top.  The function that made a tail call returns with
the one that it called, from the site of the tail call. -/
def unwind (symbols : SymbolTable) : (pc : UInt64) → (stack : List Activation) →
    List String × List Activation
  | pc, [] => ([CallTracer.returnLine symbols 0 pc], [])
  | pc, .called :: rest => ([CallTracer.returnLine symbols rest.length pc], rest)
  | pc, .tailCalled site :: rest =>
      let (lines, stack) := unwind symbols site rest
      (CallTracer.returnLine symbols rest.length pc :: lines, stack)

def record (symbols : SymbolTable) (stack : List Activation) (event : TransferEvent) :
    List String × List Activation :=
  match event.transfer with
  | .call =>
      ([CallTracer.callLine symbols stack.length event.pc event.target], .called :: stack)
  | .tailCall =>
      ([CallTracer.callLine symbols stack.length event.pc event.target],
        .tailCalled event.pc :: stack)
  | .ret => unwind symbols event.pc stack

/-- The site from which the activation at a height was entered, if a tail call entered it. -/
def site? (height : Nat) : Activation → Option TailSite
  | .called => none
  | .tailCalled site => some ⟨site, height⟩

/-- The activations that a tail call entered, top first. -/
def sites : List Activation → List TailSite
  | [] => []
  | activation :: rest => (activation.site? rest.length).toList ++ sites rest

theorem sites_below {stack : List Activation} {site : TailSite} (pending : site ∈ sites stack) :
    site.depth < stack.length := by
  induction stack with
  | nil => cases pending
  | cons activation rest ih =>
      obtain here | below := List.mem_append.mp pending
      · cases activation with
        | called => cases here
        | tailCalled pc =>
            obtain rfl := List.mem_singleton.mp here
            exact Nat.lt_succ_self _
      · exact Nat.lt_succ_of_lt (ih below)

end Activation

namespace CallTracer

open Activation

/-- The tracer that stands for a stack. -/
def ofStack (stack : List Activation) : CallTracer :=
  ⟨stack.length, sites stack⟩

/-- A site that is pending below the top never completes a return from the top. -/
theorem returns_called (symbols : SymbolTable) (pc : UInt64) (rest : List Activation) :
    returns symbols (rest.length + 1) pc (sites rest) =
      ([returnLine symbols rest.length pc], ofStack rest) := by
  cases pending : sites rest with
  | nil => simp [returns, ofStack, pending]
  | cons site below =>
      have apart : site.depth ≠ rest.length :=
        Nat.ne_of_lt (sites_below (by simp [pending]))
      simp [returns, ofStack, pending, apart]

theorem returns_ofStack (symbols : SymbolTable) (pc : UInt64) (stack : List Activation) :
    returns symbols stack.length pc (sites stack) =
      ((unwind symbols pc stack).1, ofStack (unwind symbols pc stack).2) := by
  induction stack generalizing pc with
  | nil => rfl
  | cons activation rest ih =>
      cases activation with
      | called => exact returns_called symbols pc rest
      | tailCalled site =>
          have completed := ih site
          simp [sites, site?, returns, unwind, completed]

def recordEvent (symbols : SymbolTable) (tracer : CallTracer) (event : TransferEvent) :
    List String × CallTracer :=
  record symbols tracer event.pc event.target event.transfer

theorem recordEvent_ofStack (symbols : SymbolTable) (stack : List Activation)
    (event : TransferEvent) :
    recordEvent symbols (ofStack stack) event =
      ((Activation.record symbols stack event).1,
        ofStack (Activation.record symbols stack event).2) := by
  obtain ⟨transfer, pc, target⟩ := event
  cases transfer with
  | call | tailCall => rfl
  | ret => exact returns_ofStack symbols pc stack

def recordAll {σ : Type} (record : σ → TransferEvent → List String × σ) :
    σ → List TransferEvent → List String × σ
  | state, [] => ([], state)
  | state, event :: rest =>
      let (lines, state) := record state event
      let (later, state) := recordAll record state rest
      (lines ++ later, state)

theorem recordAll_ofStack (symbols : SymbolTable) (stack : List Activation)
    (events : List TransferEvent) :
    recordAll (recordEvent symbols) (ofStack stack) events =
      ((recordAll (Activation.record symbols) stack events).1,
        ofStack (recordAll (Activation.record symbols) stack events).2) := by
  induction events generalizing stack with
  | nil => rfl
  | cons event rest ih => simp only [recordAll, recordEvent_ofStack, ih]

end CallTracer

end HartScope
