import HartScope.Proofs.Watchpoint.Requests

/-!
What polls report.  From the requests and their replies alone it is known which watchpoints are
active and which values they have taken.  A poll reports each one that has another value now, so the
reports of a watchpoint are a chain from the value that it was created with.
-/

namespace HartScope

/-- What the history tells of a watchpoint: how it was created, and the polls since. -/
structure Life where
  id : Nat
  expr : String
  created : UInt64
  /-- The scopes in which it has been polled, the latest first. -/
  polls : List Scope := []

namespace Life

/-- The value at the latest poll that could evaluate the expression, or else at the creation. -/
def lastValue (life : Life) : UInt64 :=
  (life.polls.findSome? fun scope => (evaluate scope life.expr).toOption).getD life.created

def watch (life : Life) : Watch :=
  ⟨life.id, life.expr, life.lastValue⟩

def polled (scope : Scope) (life : Life) : Life :=
  { life with polls := scope :: life.polls }

/-- The watchpoints that are active once a request has got its reply. -/
def after (lives : List Life) : PoolRequest → PoolReply → List Life
  | .allocate, .allocated (.ok watch) => { id := watch.id, expr := "", created := 0 } :: lives
  | .create expr value, .created (.ok id) => { id := id, expr := expr, created := value } :: lives
  | .release id, .released (.ok _) => lives.filter (·.id != id)
  | .poll scope, _ => lives.map (polled scope)
  | _, _ => lives

/-- The active watchpoints after a history that began with none, most recently created first. -/
def ofHistory (history : List (PoolRequest × PoolReply)) : List Life :=
  history.foldl (fun lives exchange => after lives exchange.1 exchange.2) []

/-- The expression has a value in this scope, other than the last one, and the report says so. -/
structure Changed (life : Life) (scope : Scope) (report : WatchReport) : Prop where
  id : report.id = life.id
  expr : report.expr = life.expr
  old : report.old = life.lastValue
  new : evaluate scope life.expr = .ok report.new
  differs : report.new ≠ report.old

theorem watch_polled (life : Life) (scope : Scope) :
    (life.polled scope).watch = life.watch.polled scope := by
  simp only [watch, polled, lastValue, Watch.polled, List.findSome?_cons]
  cases evaluate scope life.expr <;> rfl

end Life

/-- Each report takes up the value that the one before it left, and the first takes up this one. -/
def Linked : (last : UInt64) → List WatchReport → Prop
  | _, [] => True
  | last, report :: rest => report.old = last ∧ report.new ≠ last ∧ Linked report.new rest

def PoolReply.reports : PoolReply → List WatchReport
  | polled reports => reports
  | allocated _ | created _ | released _ | found _ => []

theorem PoolReply.settle_reports {σ α : Type} {reply : Except WatchpointError α → PoolReply}
    (silent : ∀ result, (reply result).reports = []) {state : σ}
    {result : Except WatchpointError (α × σ)} : (settle reply state result).1.reports = [] := by
  cases result <;> exact silent _

/-- What has been reported of one number. -/
def reportsOf (id : Nat) (replies : List PoolReply) : List WatchReport :=
  (replies.flatMap PoolReply.reports).filter (·.id == id)

theorem reportsOf_cons (id : Nat) (reply : PoolReply) (replies : List PoolReply) :
    reportsOf id (reply :: replies) =
      reply.reports.filter (·.id == id) ++ reportsOf id replies := by
  rw [reportsOf, List.flatMap_cons, List.filter_append]
  rfl

namespace Watch

variable {watch : Watch} {scope : Scope}

theorem report?_eq_some_iff {report : WatchReport} :
    watch.report? scope = some report ↔
      report.id = watch.id ∧ report.expr = watch.expr ∧ report.old = watch.value ∧
        evaluate scope watch.expr = .ok report.new ∧ report.new ≠ report.old := by
  constructor
  · intro reported
    unfold report? at reported
    split at reported
    · cases reported
    · rename_i new value
      split at reported
      · cases reported
      · rename_i differs
        cases reported
        exact ⟨rfl, rfl, rfl, value, differs⟩
  · rintro ⟨id, expr, old, value, differs⟩
    rw [old] at differs
    simp only [report?, value, if_neg differs]
    rw [← id, ← expr, ← old]

theorem report?_polled (watch : Watch) (scope : Scope) :
    (watch.polled scope).report? scope = none := by
  cases value : evaluate scope watch.expr with
  | error cause => simp [report?, polled, value]
  | ok new => simp [report?, polled, value]

theorem polled_id (watch : Watch) (scope : Scope) : (watch.polled scope).id = watch.id := by
  unfold polled
  split <;> rfl

/-- A report links the value before a poll to the value after it, and no report leaves the value. -/
theorem linked_polled {rest : List WatchReport} (linked : Linked (watch.polled scope).value rest) :
    Linked watch.value ((watch.report? scope).toList ++ rest) := by
  cases value : evaluate scope watch.expr with
  | error cause => simpa [report?, polled, value] using linked
  | ok new =>
      by_cases same : new = watch.value
      · simpa [report?, polled, value, same] using linked
      · simp only [polled, value] at linked
        simp only [report?, value, if_neg same]
        exact ⟨rfl, same, linked⟩

theorem filterMap_report?_apart {watches : List Watch} {id : Nat}
    (apart : id ∉ watches.map Watch.id) :
    (watches.filterMap (report? scope)).filter (·.id == id) = [] := by
  rw [List.filter_eq_nil_iff]
  intro report member
  obtain ⟨other, present, reported⟩ := List.mem_filterMap.mp member
  have elsewhere : report.id ≠ id := by
    rw [(report?_eq_some_iff.mp reported).1]
    exact ne_of_mem_of_not_mem (List.mem_map_of_mem present) apart
  simpa using elsewhere

theorem filterMap_report?_ids (watches : List Watch) :
    ((watches.filterMap (report? scope)).map WatchReport.id).Sublist (watches.map Watch.id) := by
  induction watches with
  | nil => exact .slnil
  | cons watch rest ih =>
      cases reported : watch.report? scope with
      | none =>
          rw [List.filterMap_cons_none reported]
          exact ih.cons _
      | some report =>
          rw [List.filterMap_cons_some reported, List.map_cons, (report?_eq_some_iff.mp reported).1]
          exact ih.cons_cons _

end Watch

theorem Life.report?_eq_some_iff (life : Life) {scope : Scope} {report : WatchReport} :
    life.watch.report? scope = some report ↔ life.Changed scope report := by
  rw [Watch.report?_eq_some_iff]
  constructor
  · rintro ⟨id, expr, old, new, differs⟩
    exact ⟨id, expr, old, new, differs⟩
  · rintro ⟨id, expr, old, new, differs⟩
    exact ⟨id, expr, old, new, differs⟩

namespace WatchStacks

variable {model : WatchStacks} {watch : Watch}

/-- In a poll an active watchpoint has the reports of its number to itself. -/
theorem poll_reportsOf (distinct : model.ids.Nodup) (member : watch ∈ model.active)
    (scope : Scope) :
    (model.poll scope).1.filter (·.id == watch.id) = (watch.report? scope).toList := by
  obtain ⟨before, behind, place⟩ := List.append_of_mem member
  rw [ids, place, List.map_append, List.map_cons] at distinct
  have alone := (List.nodup_cons.mp (List.perm_middle.nodup_iff.mp distinct)).1
  rw [List.mem_append, not_or] at alone
  have own : (watch.report? scope).toList.filter (·.id == watch.id) =
      (watch.report? scope).toList := by
    apply List.filter_eq_self.mpr
    intro report reported
    simpa using (Watch.report?_eq_some_iff.mp (Option.mem_toList.mp reported)).1
  -- The others have other numbers, so nothing that they report is selected.
  rw [poll, place, List.filterMap_append, List.filter_append,
    Watch.filterMap_report?_apart alone.1, List.nil_append]
  cases reported : watch.report? scope with
  | none =>
      rw [List.filterMap_cons_none reported]
      exact Watch.filterMap_report?_apart alone.2
  | some report =>
      rw [reported, Option.toList_some] at own
      rw [List.filterMap_cons_some reported, ← List.singleton_append, List.filter_append, own,
        Watch.filterMap_report?_apart alone.2]
      rfl

theorem poll_again (model : WatchStacks) (scope : Scope) :
    ((model.poll scope).2.poll scope).1 = [] := by
  rw [poll, poll, List.filterMap_map, List.filterMap_eq_nil_iff]
  exact fun watch _ => watch.report?_polled scope

/-- The stacks hold what the history tells, if they did before. -/
theorem serve_lives {lives : List Life} (same : model.active = lives.map Life.watch)
    (request : PoolRequest) :
    (model.serve request).2.active =
      (Life.after lives request (model.serve request).1).map Life.watch := by
  cases request with
  | allocate =>
      cases outcome : model.create "" 0 with
      | error cause =>
          simp only [serve, outcome, PoolReply.settle]
          exact same
      | ok result =>
          simp only [serve, outcome, PoolReply.settle]
          rw [(create_some outcome).1, same]
          rfl
  | create expr value =>
      cases outcome : model.create expr value with
      | error cause =>
          simp only [serve, outcome, PoolReply.settle]
          exact same
      | ok result =>
          simp only [serve, outcome, PoolReply.settle]
          rw [(create_some outcome).1, same]
          rfl
  | release id =>
      cases found : model.find? id with
      | none => simpa [serve, release, found, PoolReply.settle, Life.after] using same
      | some watch =>
          simp only [serve, release, found, PoolReply.settle, Life.after, same, List.filter_map]
          rfl
  | find id => exact same
  | poll scope =>
      simp only [serve, poll, Life.after, same, List.map_map]
      exact List.map_congr_left fun life _ => (life.watch_polled scope).symm

theorem serveAll_lives {lives : List Life} (same : model.active = lives.map Life.watch)
    (requests : List PoolRequest) :
    (serveAll serve model requests).2.active =
      ((requests.zip (serveAll serve model requests).1).foldl
        (fun lives exchange => Life.after lives exchange.1 exchange.2) lives).map Life.watch := by
  induction requests generalizing model lives with
  | nil => exact same
  | cons request rest ih => exact ih (serve_lives same request)

theorem serve_reports {request : PoolRequest} (unpolled : ∀ scope, request ≠ .poll scope) :
    (model.serve request).1.reports = [] := by
  cases request with
  | allocate | create | release => exact PoolReply.settle_reports fun _ => rfl
  | find => rfl
  | poll scope => exact absurd rfl (unpolled scope)

theorem serve_keeps (member : watch ∈ model.active) {request : PoolRequest}
    (unpolled : ∀ scope, request ≠ .poll scope) (spared : request ≠ .release watch.id) :
    watch ∈ (model.serve request).2.active := by
  let P (after : WatchStacks) : Prop := watch ∈ after.active
  cases request with
  | allocate | create =>
      refine PoolReply.settle_state (P := P) member fun id after created => ?_
      change watch ∈ after.active
      rw [(create_some created).1]
      exact List.mem_cons_of_mem _ member
  | release id =>
      have apart : watch.id ≠ id := fun same => spared (congrArg PoolRequest.release same.symm)
      refine PoolReply.settle_state (P := P) member fun expr after released => ?_
      change watch ∈ after.active
      rw [(release_some released).1]
      exact List.mem_filter.mpr ⟨member, by simpa using apart⟩
  | find => exact member
  | poll scope => exact absurd rfl (unpolled scope)

/-- Until it is released, a watchpoint stays, and its reports carry its value on. -/
theorem serve_linked (distinct : model.ids.Nodup) (member : watch ∈ model.active)
    {request : PoolRequest} (spared : request ≠ .release watch.id) :
    ∃ after ∈ (model.serve request).2.active, after.id = watch.id ∧
      ∀ rest, Linked after.value rest →
        Linked watch.value ((model.serve request).1.reports.filter (·.id == watch.id) ++ rest) := by
  by_cases polls : ∃ scope, request = .poll scope
  · obtain ⟨scope, rfl⟩ := polls
    refine ⟨watch.polled scope, List.mem_map_of_mem member, watch.polled_id scope, ?_⟩
    intro rest linked
    change Linked watch.value ((model.poll scope).1.filter (·.id == watch.id) ++ rest)
    rw [poll_reportsOf distinct member scope]
    exact Watch.linked_polled linked
  · have unpolled : ∀ scope, request ≠ .poll scope := fun scope same => polls ⟨scope, same⟩
    refine ⟨watch, serve_keeps member unpolled spared, rfl, ?_⟩
    intro rest linked
    rw [serve_reports unpolled]
    exact linked

end WatchStacks

namespace WatchpointPool

/-- Between the two nothing has changed but values, and not those of expressions that have none. -/
structure Refreshed (scope : Scope) (before after : WatchpointPool) : Prop where
  head : after.head = before.head
  free : after.free = before.free
  slots : ∀ id : Nat, ∃ value,
    after.slots[id]? = before.slots[id]?.map fun slot => { slot with value := value }
  failed : ∀ (id : Nat) (slot : Watchpoint) (cause : ExprError), before.slots[id]? = some slot →
    evaluate scope slot.expr = .error cause → after.slots[id]? = some slot

variable {scope : Scope} {pool between after : WatchpointPool} {model : WatchStacks}

theorem Refreshed.refl (scope : Scope) (pool : WatchpointPool) : pool.Refreshed scope pool := by
  refine ⟨rfl, rfl, ?_, fun _ _ _ present _ => present⟩
  intro id
  cases present : pool.slots[id]? with
  | none => exact ⟨0, rfl⟩
  | some slot => exact ⟨slot.value, rfl⟩

theorem Refreshed.trans (first : pool.Refreshed scope between)
    (second : between.Refreshed scope after) : pool.Refreshed scope after := by
  refine ⟨second.head.trans first.head, second.free.trans first.free, ?_, ?_⟩
  · intro id
    obtain ⟨_, early⟩ := first.slots id
    obtain ⟨value, late⟩ := second.slots id
    refine ⟨value, ?_⟩
    rw [late, early, Option.map_map]
    rfl
  · intro id slot cause present fails
    exact second.failed id slot cause (first.failed id slot cause present fails) fails

theorem pollSlot_refreshed (scope : Scope) (pool : WatchpointPool) (id : Nat) :
    pool.Refreshed scope (pollSlot scope pool id).2 := by
  unfold pollSlot
  split
  · exact .refl scope pool
  · rename_i slot found
    split
    · exact .refl scope pool
    · rename_i new value
      split
      · exact .refl scope pool
      · have here := modifySlot_same found fun slot => { slot with value := new }
        refine ⟨rfl, rfl, ?_, ?_⟩
        · intro other
          by_cases target : other = id
          · subst target
            exact ⟨new, by rw [here, found]; rfl⟩
          · rw [modifySlot_ne target]
            exact (Refreshed.refl scope pool).slots other
        · intro other entry cause present fails
          have apart : other ≠ id := by
            rintro rfl
            cases found.symm.trans present
            rw [value] at fails
            cases fails
          rw [modifySlot_ne apart]
          exact present

theorem poll_refreshed (scope : Scope) (pool : WatchpointPool) :
    pool.Refreshed scope (pool.poll scope).2 := by
  have slots (ids : List Nat) (pool : WatchpointPool) :
      pool.Refreshed scope (pollSlots scope pool ids).2 := by
    induction ids generalizing pool with
    | nil => exact .refl scope pool
    | cons id rest ih => exact (pollSlot_refreshed scope pool id).trans (ih _)
  exact slots pool.active pool

theorem Represents.poll_lists (represents : pool.Represents model) (scope : Scope) :
    (pool.poll scope).2.active = pool.active ∧
      (pool.poll scope).2.available = pool.available := by
  obtain ⟨_, polled⟩ := represents.poll_eq scope
  have ids : (model.poll scope).2.ids = model.ids := by
    simp only [WatchStacks.ids, WatchStacks.poll, List.map_map]
    exact List.map_congr_left fun watch _ => watch.polled_id scope
  rw [polled.active_eq, represents.active_eq, polled.available_eq, represents.available_eq, ids]
  exact ⟨rfl, rfl⟩

/-- The reports of a watchpoint that is not released are linked from its value on. -/
theorem Represents.reports_linked (represents : pool.Represents model) {watch : Watch}
    (member : watch ∈ model.active) {later : List PoolRequest}
    (spared : ∀ request ∈ later, request ≠ .release watch.id) :
    Linked watch.value (reportsOf watch.id (serveAll serve pool later).1) := by
  induction later generalizing pool model watch with
  | nil => trivial
  | cons request rest ih =>
      obtain ⟨reply, next⟩ := serve_represents represents request
      have distinct := (List.nodup_append.mp represents.nodup).1
      obtain ⟨after, present, sameId, linked⟩ :=
        WatchStacks.serve_linked distinct member (spared request List.mem_cons_self)
      have remaining := ih next present fun other behind =>
        sameId ▸ spared other (List.mem_cons_of_mem _ behind)
      rw [sameId] at remaining
      simp only [serveAll, reportsOf_cons]
      rw [reply]
      exact linked _ remaining

/-- After any requests to a pool of any capacity a poll reports exactly the active watchpoints whose
expression has another value than when it last had one, each once and in the order of the list.  A
poll in the same scope after it reports nothing, it changes nothing but values, and the reports of a
watchpoint that is not released are linked from its last value on. -/
theorem polls_report_every_change (capacity : Nat) (requests : List PoolRequest) (scope : Scope) :
    let outcome := serveAll serve (withCapacity capacity) requests
    let pool := outcome.2
    let lives := Life.ofHistory (requests.zip outcome.1)
    pool.watchpoints.map Watchpoint.watch = lives.map Life.watch ∧
      pool.active = lives.map Life.id ∧ pool.active.Nodup ∧
      (∀ report, report ∈ (pool.poll scope).1 ↔ ∃ life ∈ lives, life.Changed scope report) ∧
      ((pool.poll scope).1.map WatchReport.id).Sublist pool.active ∧
      ((pool.poll scope).2.poll scope).1 = [] ∧
      pool.Refreshed scope (pool.poll scope).2 ∧
      (pool.poll scope).2.active = pool.active ∧
      (pool.poll scope).2.available = pool.available ∧
      ∀ life ∈ lives, ∀ later, (∀ request ∈ later, request ≠ .release life.id) →
        Linked life.lastValue (reportsOf life.id (serveAll serve pool later).1) := by
  intro outcome pool lives
  obtain ⟨replies, represents⟩ := serveAll_represents (represents_empty capacity) requests
  have active := WatchStacks.serveAll_lives
    (show ({ capacity := capacity } : WatchStacks).active = [].map Life.watch from rfl) requests
  rw [← replies] at active
  have listed : pool.active = lives.map Life.id := by
    rw [represents.active_eq, WatchStacks.ids, active, List.map_map]
    rfl
  obtain ⟨reports, polled⟩ := represents.poll_eq scope
  refine ⟨represents.watchpoints_eq.trans active, listed, ?_, ?_, ?_, ?_,
    poll_refreshed scope pool, (represents.poll_lists scope).1, (represents.poll_lists scope).2, ?_⟩
  · rw [represents.active_eq]
    exact (List.nodup_append.mp represents.nodup).1
  · intro report
    rw [reports, WatchStacks.poll, active, List.filterMap_map, List.mem_filterMap]
    exact exists_congr fun life => and_congr_right fun _ => life.report?_eq_some_iff
  · rw [reports, represents.active_eq]
    exact Watch.filterMap_report?_ids _
  · rw [(polled.poll_eq scope).1]
    exact WatchStacks.poll_again _ scope
  · intro life member later spared
    have present : life.watch ∈ _ := active ▸ List.mem_map_of_mem member
    exact represents.reports_linked present spared

/-- A scope in which every register holds this number. -/
def uniformScope (value : UInt64) : Scope where
  register _ := some value
  memory address := .error (.badAddress address)
  symbol _ := none

theorem counter_reports_linked :
    let pool := (serveAll serve (withCapacity 2) [.create "$t0" 5, .poll (uniformScope 5)]).2
    let later := [9, 9, 7].map fun value => PoolRequest.poll (uniformScope value)
    reportsOf 0 (serveAll serve pool later).1 = [⟨0, "$t0", 5, 9⟩, ⟨0, "$t0", 9, 7⟩] ∧
      Linked 5 (reportsOf 0 (serveAll serve pool later).1) := by
  intro pool later
  let life : Life := ⟨0, "$t0", 5, [uniformScope 5]⟩
  have alive : Life.ofHistory ([.create "$t0" 5, .poll (uniformScope 5)].zip
      (serveAll serve (withCapacity 2) [.create "$t0" 5, .poll (uniformScope 5)]).1) = [life] :=
    rfl
  have value : life.lastValue = 5 := by decide +kernel
  obtain ⟨_, _, _, _, _, _, _, _, _, linked⟩ :=
    polls_report_every_change 2 [.create "$t0" 5, .poll (uniformScope 5)] (uniformScope 9)
  have reports := linked life (alive ▸ List.mem_singleton_self life) later (by simp [later])
  rw [value] at reports
  exact ⟨by decide +kernel, reports⟩

end WatchpointPool

end HartScope
