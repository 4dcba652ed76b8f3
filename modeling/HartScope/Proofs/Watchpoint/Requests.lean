import HartScope.Proofs.Watchpoint.Pool

/-!
Sequences of requests to the pool.  Whatever is asked for in whatever order, the pool answers as the
two stacks do, and the links of its slots remain two chains that share out the slots.
-/

namespace HartScope

inductive PoolRequest where
  | allocate
  | create (expr : String) (value : UInt64)
  | release (id : Nat)
  | find (id : Nat)
  | poll (scope : Scope)

inductive PoolReply where
  | allocated (result : Except WatchpointError Watch)
  | created (result : Except WatchpointError Nat)
  | released (result : Except WatchpointError String)
  | found (result : Option Watch)
  | polled (reports : List WatchReport)

namespace PoolReply

/-- The reply to an operation that can fail, and then leaves the state. -/
def settle {σ α : Type} (reply : Except WatchpointError α → PoolReply) (state : σ) :
    Except WatchpointError (α × σ) → PoolReply × σ
  | .ok (value, after) => (reply (.ok value), after)
  | .error cause => (reply (.error cause), state)

/-- What holds before an operation holds afterwards, if its success keeps it. -/
theorem settle_state {σ α : Type} {P : σ → Prop} {reply : Except WatchpointError α → PoolReply}
    {state : σ} {result : Except WatchpointError (α × σ)} (before : P state)
    (success : ∀ value after, result = .ok (value, after) → P after) :
    P (settle reply state result).2 := by
  cases result with
  | error cause => exact before
  | ok outcome => exact success outcome.1 outcome.2 rfl

end PoolReply

open PoolReply

def WatchpointPool.serve (pool : WatchpointPool) : PoolRequest → PoolReply × WatchpointPool
  | .allocate => settle (fun result => .allocated (result.map Watchpoint.watch)) pool pool.allocate
  | .create expr value => settle .created pool (pool.create expr value)
  | .release id => settle .released pool (pool.release id)
  | .find id => (.found ((pool.find? id).map Watchpoint.watch), pool)
  | .poll scope => (.polled (pool.poll scope).1, (pool.poll scope).2)

def WatchStacks.serve (model : WatchStacks) : PoolRequest → PoolReply × WatchStacks
  | .allocate =>
      settle (fun result => .allocated (result.map fun id => ⟨id, "", 0⟩)) model
        (model.create "" 0)
  | .create expr value => settle .created model (model.create expr value)
  | .release id => settle .released model (model.release id)
  | .find id => (.found (model.find? id), model)
  | .poll scope => (.polled (model.poll scope).1, (model.poll scope).2)

/-- The replies to a sequence of requests, and the state afterwards. -/
def serveAll {σ : Type} (serve : σ → PoolRequest → PoolReply × σ) :
    σ → List PoolRequest → List PoolReply × σ
  | state, [] => ([], state)
  | state, request :: rest =>
      let (reply, state) := serve state request
      let (replies, state) := serveAll serve state rest
      (reply :: replies, state)

theorem WatchStacks.create_some {model after : WatchStacks} {expr : String} {value : UInt64}
    {id : Nat} (created : model.create expr value = .ok (id, after)) :
    after.active = ⟨id, expr, value⟩ :: model.active ∧ after.capacity = model.capacity := by
  cases popped : model.pop? with
  | none => simp [create, popped] at created
  | some top =>
      simp only [create, popped, Except.ok.injEq, Prod.mk.injEq] at created
      obtain ⟨rfl, rfl⟩ := created
      obtain ⟨_, active, capacity⟩ := pop?_some popped
      exact ⟨by rw [active], capacity⟩

theorem WatchStacks.release_some {model after : WatchStacks} {id : Nat} {expr : String}
    (released : model.release id = .ok (expr, after)) :
    after.active = model.active.filter (·.id != id) ∧ after.capacity = model.capacity := by
  cases found : model.find? id with
  | none => simp [release, found] at released
  | some watch =>
      simp only [release, found, Except.ok.injEq, Prod.mk.injEq] at released
      obtain ⟨_, rfl⟩ := released
      exact ⟨rfl, rfl⟩

theorem WatchStacks.serve_capacity (model : WatchStacks) (request : PoolRequest) :
    (model.serve request).2.capacity = model.capacity := by
  let P (after : WatchStacks) : Prop := after.capacity = model.capacity
  cases request with
  | allocate | create => exact settle_state (P := P) rfl fun _ _ created => (create_some created).2
  | release id => exact settle_state (P := P) rfl fun _ _ released => (release_some released).2
  | find id => rfl
  | poll scope => rfl

theorem WatchStacks.serveAll_capacity (model : WatchStacks) (requests : List PoolRequest) :
    (serveAll WatchStacks.serve model requests).2.capacity = model.capacity := by
  induction requests generalizing model with
  | nil => rfl
  | cons request rest ih =>
      simp only [serveAll]
      rw [ih, serve_capacity]

namespace WatchpointPool

variable {pool : WatchpointPool} {model : WatchStacks}

/-- One request gets the same reply from the pool as from the stacks that it represents. -/
theorem serve_represents (represents : pool.Represents model) (request : PoolRequest) :
    (pool.serve request).1 = (model.serve request).1 ∧
      (pool.serve request).2.Represents (model.serve request).2 := by
  cases request with
  | allocate =>
      cases popped : model.pop? with
      | none =>
          simp only [serve, WatchStacks.serve, WatchStacks.create, popped,
            represents.allocate_none popped, settle]
          exact ⟨rfl, represents⟩
      | some top =>
          obtain ⟨after, allocated, next⟩ := represents.allocate_some popped
          simp only [serve, WatchStacks.serve, WatchStacks.create, popped, allocated, settle]
          exact ⟨rfl, next⟩
  | create expr value =>
      cases popped : model.pop? with
      | none =>
          simp only [serve, WatchStacks.serve, WatchStacks.create, popped, create,
            represents.allocate_none popped]
          exact ⟨rfl, represents⟩
      | some top =>
          obtain ⟨after, created, next⟩ := represents.create_some popped expr value
          simp only [serve, WatchStacks.serve, WatchStacks.create, popped, created, settle]
          exact ⟨trivial, next⟩
  | release id =>
      cases found : model.find? id with
      | none =>
          simp only [serve, WatchStacks.serve, WatchStacks.release, found,
            represents.release_none found, settle]
          exact ⟨trivial, represents⟩
      | some watch =>
          obtain ⟨after, released, next⟩ := represents.release_some found
          simp only [serve, WatchStacks.serve, WatchStacks.release, found, released, settle]
          exact ⟨trivial, next⟩
  | find id => exact ⟨congrArg PoolReply.found (represents.find?_eq id), represents⟩
  | poll scope =>
      obtain ⟨reports, next⟩ := represents.poll_eq scope
      exact ⟨congrArg PoolReply.polled reports, next⟩

theorem serveAll_represents (represents : pool.Represents model) (requests : List PoolRequest) :
    (serveAll serve pool requests).1 = (serveAll WatchStacks.serve model requests).1 ∧
      (serveAll serve pool requests).2.Represents
        (serveAll WatchStacks.serve model requests).2 := by
  induction requests generalizing pool model with
  | nil => exact ⟨rfl, represents⟩
  | cons request rest ih =>
      obtain ⟨reply, next⟩ := serve_represents represents request
      obtain ⟨replies, last⟩ := ih next
      simp only [serveAll]
      exact ⟨by rw [reply, replies], last⟩

/-- The links of the slots form two chains that end, and that together visit each slot once. -/
structure WellFormed (pool : WatchpointPool) (capacity : Nat) : Prop where
  size : pool.slots.size = capacity
  numbered : ∀ (id : Nat) (slot : Watchpoint), pool.slots[id]? = some slot → slot.id = id
  active : Chain pool.slots pool.head pool.active none
  available : Chain pool.slots pool.free pool.available none
  partition : (pool.active ++ pool.available).Perm (List.range capacity)

theorem Represents.wellFormed (represents : pool.Represents model) :
    pool.WellFormed model.capacity := by
  have active := represents.active_eq
  have available := represents.available_eq
  refine ⟨represents.size, represents.numbered, ?_, ?_, ?_⟩
  · rw [active]
    exact represents.active
  · rw [available]
    exact represents.free
  · rw [active, available]
    exact represents.partition

/-- The loops over the lists end by themselves: more steps than slots are never taken. -/
theorem WellFormed.walk_eq {capacity steps : Nat} (formed : pool.WellFormed capacity)
    (enough : capacity ≤ steps) :
    walk pool.slots steps pool.head = pool.active ∧
      walk pool.slots steps pool.free = pool.available := by
  have lengths := formed.partition.length_eq
  rw [List.length_append, List.length_range] at lengths
  exact ⟨formed.active.walk_eq (by omega), formed.available.walk_eq (by omega)⟩

theorem Represents.exhausted_iff (represents : pool.Represents model) :
    pool.allocate = .error .exhausted ↔ pool.watchpoints.length = model.capacity := by
  have lengths := represents.lengths
  have count : pool.watchpoints.length = model.ids.length := by
    rw [WatchStacks.ids, ← represents.watchpoints_eq]
    simp
  rw [count]
  cases popped : model.pop? with
  | none =>
      rw [WatchStacks.pop?_none popped, List.length_nil] at lengths
      simp only [represents.allocate_none popped, true_iff]
      omega
  | some top =>
      obtain ⟨after, allocated, _⟩ := represents.allocate_some popped
      rw [(WatchStacks.pop?_some popped).1, List.length_cons] at lengths
      simp only [allocated, reduceCtorEq, false_iff]
      omega

theorem Represents.released_iff (represents : pool.Represents model) (id : Nat) :
    (∃ expr after, pool.release id = .ok (expr, after)) ↔ id ∈ pool.active := by
  rw [represents.active_eq]
  cases found : model.find? id with
  | none =>
      have absent := (model.find?_none_iff id).mp found
      simp [represents.release_none found, absent]
  | some watch =>
      have active : id ∈ model.ids := by
        apply Decidable.byContradiction
        intro absent
        rw [(model.find?_none_iff id).mpr absent] at found
        cases found
      obtain ⟨after, released, _⟩ := represents.release_some found
      exact ⟨fun _ => active, fun _ => ⟨_, _, released⟩⟩

/-- A pool of any capacity, after any requests, has answered as two stacks do and lists the active
watchpoints and the free numbers as they do; its links are well formed, it is exhausted exactly when
every slot is active, and exactly the active watchpoints can be released. -/
theorem pool_behaves_as_two_stacks (capacity : Nat) (requests : List PoolRequest) :
    let outcome := serveAll serve (withCapacity capacity) requests
    let expected := serveAll WatchStacks.serve { capacity := capacity } requests
    outcome.1 = expected.1 ∧
      outcome.2.watchpoints.map Watchpoint.watch = expected.2.active ∧
      outcome.2.available = expected.2.free ∧
      outcome.2.WellFormed capacity ∧
      (∀ steps, capacity ≤ steps →
        walk outcome.2.slots steps outcome.2.head = outcome.2.active ∧
          walk outcome.2.slots steps outcome.2.free = outcome.2.available) ∧
      (outcome.2.allocate = .error .exhausted ↔ outcome.2.watchpoints.length = capacity) ∧
      ∀ id, (∃ expr after, outcome.2.release id = .ok (expr, after)) ↔ id ∈ outcome.2.active := by
  intro outcome expected
  obtain ⟨replies, represents⟩ :=
    serveAll_represents (represents_empty capacity) requests
  have kept : expected.2.capacity = capacity :=
    WatchStacks.serveAll_capacity { capacity := capacity } requests
  have formed := represents.wellFormed
  have exhausted := represents.exhausted_iff
  rw [kept] at formed exhausted
  exact ⟨replies, represents.watchpoints_eq, represents.available_eq, formed,
    fun _ enough => formed.walk_eq enough, exhausted, represents.released_iff⟩

end WatchpointPool

end HartScope
