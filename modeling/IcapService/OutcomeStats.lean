import IcapService.GwService
import IcapService.HandlerOrder
import Mathlib.Data.List.Count
import Mathlib.Logic.Function.Basic

/-! The outcome statistics of `gw_rebuild`.

The counters are followed over the requests of a server, each of which may stop at any point. What a request counts is
one of few things, and the counters balance because each of these does. -/

namespace IcapService

open CString Machine

/-- The counters of `gw_rebuild_init_service`. -/
inductive GwStat where
  | scanReqs
  | rebuildFailures
  | rebuildErrors
  | rebuildSuccesses
  | notProcessed
  | unprocessable
  deriving DecidableEq

/-- The handler that counts. -/
inductive GwStage where
  | preview
  | endOfData
  deriving DecidableEq

/-- The counters, and the increments of a request in their order. -/
structure GwStats where
  counters : GwStat → UInt64
  log : List (GwStage × GwStat)

/-- `ci_stat_uint64_inc` by one. -/
def GwStats.inc (s : GwStats) (stage : GwStage) (id : GwStat) : GwStats :=
  ⟨Function.update s.counters id (s.counters id + 1), s.log ++ [(stage, id)]⟩

/-- The data of a request, or null, its HTTP headers and the statistics. -/
structure StatState where
  data : Option GwData
  http : HttpSide
  stats : GwStats

/-- The write of the preview to the store may fail. -/
structure StatEnv extends GwEnv where
  previewWritten : Bool

namespace StatEnv

variable (env : StatEnv)

/-- `gw_rebuild_check_preview_handler`. -/
def checkPreview (view : View) (preview : Bytes) (t : StatState) : Effect StatState :=
  match t.data with
  | none =>
      ⟨.allow204, { t with stats := t.stats.inc .preview .unprocessable }, view.entities, view.dataLocked⟩
  | some d =>
      if view.info.hasbody = false then
        ⟨.allow204, { t with stats := t.stats.inc .preview .unprocessable }, view.entities, view.dataLocked⟩
      else if preview ≠ [] ∧ env.previewWritten = false then
        ⟨.error, { t with data := some d.initBodyData, stats := t.stats.inc .preview .rebuildErrors },
          view.entities, view.dataLocked⟩
      else
        let out := d.checkPreviewHandler view.info.hasbody view.hasalldata preview
        ⟨out.1, { t with data := some out.2 }, view.entities, view.dataLocked⟩

/-- The increments of `rebuild_request_body`. -/
def rebuildRequestBodyStats (proxy : ProxyResult) (d : GwData) (s : GwStats) : GwStats :=
  let s := s.inc .endOfData .scanReqs
  if proxy.status = gwFailed then s.inc .endOfData .rebuildFailures
  else if proxy.status = gwError then s.inc .endOfData .rebuildErrors
  else if proxy.status = gwUnprocessed then s.inc .endOfData .notProcessed
  else if proxy.status = gwRebuilt then
    match d.body.rebuild.refreshExternallyUpdated proxy.output with
    | none => s.inc .endOfData .rebuildErrors
    | some rebuild =>
        if rebuild.endpos = 0 then s.inc .endOfData .rebuildErrors
        -- `replace_request_body` returns CI_OK, which is not zero
        else s.inc .endOfData .rebuildSuccesses
  else s.inc .endOfData .rebuildErrors

/-- `gw_rebuild_end_of_data_handler`. Without data the process ends before it counts. -/
def endOfData (view : View) (t : StatState) : Effect StatState :=
  match t.data with
  | none => ⟨.error, t, view.entities, view.dataLocked⟩
  | some d =>
      let out := gwRebuildEndOfData env.fresh env.page env.proxy t.http d
      ⟨out.1, ⟨some out.2.2, out.2.1, rebuildRequestBodyStats env.proxy d t.stats⟩, env.entities out.2.1,
        if out.1 = .allow204 then view.dataLocked else false⟩

/-- `gw_rebuild_io`. -/
def rebuildIo (t : StatState) (c : IoCall) : IoAnswer × StatState :=
  match t.data with
  | none =>
      if c.offered.isSome ∨ c.iseof then (⟨true, .untouched, 0, c.dataLocked⟩, t)
      else (⟨false, if c.room.isSome then .error else .bytes [], 0, c.dataLocked⟩, t)
  | some d =>
      let out := d.gwRebuildIo c
      (out.1, { t with data := some out.2 })

theorem rebuildIo_stats (t : StatState) (c : IoCall) : (rebuildIo t c).2.stats = t.stats := by
  simp only [rebuildIo]
  split
  · split <;> rfl
  · rfl

end StatEnv

def statIo : IoModule StatState where
  io := StatEnv.rebuildIo
  room t c data produced := by
    simp only [StatEnv.rebuildIo] at produced
    split at produced
    · split at produced
      · cases produced
      · dsimp only at produced
        split at produced
        · cases produced
        · cases produced
          exact Nat.zero_le _
    · rename_i d _
      exact d.gwRebuildIo_room c data produced
  taken t c := by
    simp only [StatEnv.rebuildIo]
    split
    · split <;> exact Nat.zero_le _
    · rename_i d _
      exact d.gwRebuildIo_taken c
  touched t c untouched := by
    simp only [StatEnv.rebuildIo] at untouched ⊢
    split at untouched
    · split at untouched
      · rename_i called
        rw [if_pos called]
      · dsimp only at untouched
        split at untouched <;> cases untouched
    · rename_i d _
      exact d.gwRebuildIo_touched c untouched

def statService (env : StatEnv) : Service StatState where
  io := statIo
  checkPreviewHandler := some env.checkPreview
  endOfDataHandler := some env.endOfData

/-! ### A request -/

/-- The statistics behind a list of increments. -/
def GwStats.after (counters : GwStat → UInt64) (log : List (GwStage × GwStat)) : GwStats :=
  log.foldl (fun s entry => s.inc entry.1 entry.2) ⟨counters, []⟩

namespace GwStats

variable (counters : GwStat → UInt64)

theorem after_snoc (log : List (GwStage × GwStat)) (stage : GwStage) (id : GwStat) :
    after counters (log ++ [(stage, id)]) = (after counters log).inc stage id := by
  rw [after, List.foldl_append]
  rfl

/-- A counter has grown by its increments. -/
theorem counters_after (log : List (GwStage × GwStat)) (id : GwStat) :
    (after counters log).counters id = counters id + UInt64.ofNat (log.countP fun entry => entry.2 = id) := by
  induction log using List.reverseRecOn with
  | nil => exact (UInt64.add_zero _).symm
  | append_singleton log entry ih =>
      rw [after_snoc, List.countP_append, inc]
      by_cases same : entry.2 = id
      · subst same
        simp only [Function.update_self, ih, List.countP_singleton, decide_true, if_true, UInt64.ofNat_add]
        exact UInt64.add_assoc _ _ _
      · dsimp only
        rw [Function.update_of_ne (Ne.symm same), ih]
        simp [same]

theorem log_after (log : List (GwStage × GwStat)) : (after counters log).log = log := by
  induction log using List.reverseRecOn with
  | nil => rfl
  | append_singleton log entry ih => rw [after_snoc, inc, ih]

end GwStats

/-- The outcomes of a request that is scanned. -/
def GwStat.IsOutcome (id : GwStat) : Prop :=
  id = .rebuildFailures ∨ id = .rebuildErrors ∨ id = .rebuildSuccesses ∨ id = .notProcessed

/-- What the preview handler counts when it lets a request go on or allows a 204. -/
def PreviewLog (log : List (GwStage × GwStat)) : Prop := log = [] ∨ log = [(.preview, .unprocessable)]

/-- What a request counts: nothing, or that it is not processable; an error of the preview handler; or, in the
end-of-data handler, that it is scanned, and one outcome. -/
inductive RequestLog : List (GwStage × GwStat) → Prop where
  | unscanned {log : List (GwStage × GwStat)} (preview : PreviewLog log) : RequestLog log
  | failed : RequestLog [(.preview, .rebuildErrors)]
  | scanned {log : List (GwStage × GwStat)} {id : GwStat} (preview : PreviewLog log) (outcome : id.IsOutcome) :
      RequestLog (log ++ [(.endOfData, .scanReqs), (.endOfData, id)])

/-- The statistics are those behind a log of the given kind. -/
def StatState.Counted (counters : GwStat → UInt64) (kind : List (GwStage × GwStat) → Prop) (t : StatState) : Prop :=
  ∃ log, kind log ∧ t.stats = .after counters log

section

variable {counters : GwStat → UInt64} {t : StatState} (env : StatEnv)

/-- The outcome that a status counts as: a success when the rebuilt file is sent, not processed when the body is left as
it is, a failure or an error with the error page. -/
def RebuildStatus.CountsAs (id : GwStat) : RebuildStatus → Prop
  | .ok => id = .rebuildSuccesses
  | .allow204 => id = .notProcessed
  | .error => id = .rebuildFailures ∨ id = .rebuildErrors

/-- A request that is scanned has one outcome, the one of its status. -/
theorem rebuildRequestBodyStats_outcome (fresh : Nat → UInt8) (proxy : ProxyResult) (r : HttpSide) (d : GwData)
    (s : GwStats) :
    ∃ id : GwStat, StatEnv.rebuildRequestBodyStats proxy d s = (s.inc .endOfData .scanReqs).inc .endOfData id ∧
      (rebuildRequestBody fresh proxy r d).1.CountsAs id := by
  simp only [StatEnv.rebuildRequestBodyStats, rebuildRequestBody]
  by_cases failed : proxy.status = gwFailed
  · rw [failed]
    exact ⟨.rebuildFailures, rfl, .inl rfl⟩
  · rw [if_neg failed]
    by_cases error : proxy.status = gwError
    · rw [error]
      exact ⟨.rebuildErrors, rfl, .inr rfl⟩
    · rw [if_neg error]
      split
      · exact ⟨.notProcessed, rfl, rfl⟩
      · split
        · cases d.body.rebuild.refreshExternallyUpdated proxy.output with
          | none => exact ⟨.rebuildErrors, rfl, .inr rfl⟩
          | some rebuild =>
              dsimp only
              split
              · exact ⟨.rebuildErrors, rfl, .inr rfl⟩
              · exact ⟨.rebuildSuccesses, rfl, rfl⟩
        · exact ⟨.rebuildErrors, rfl, .inr rfl⟩

theorem rebuildRequestBodyStats_scanned (proxy : ProxyResult) (d : GwData) (s : GwStats) :
    ∃ id : GwStat, id.IsOutcome ∧
      StatEnv.rebuildRequestBodyStats proxy d s = (s.inc .endOfData .scanReqs).inc .endOfData id := by
  obtain ⟨id, same, outcome⟩ := rebuildRequestBodyStats_outcome (fun _ => 0) proxy ⟨.respmod, .empty, false⟩ d s
  refine ⟨id, ?_, same⟩
  generalize (rebuildRequestBody _ proxy _ d).1 = status at outcome
  cases status with
  | ok => exact .inr (.inr (.inl outcome))
  | allow204 => exact .inr (.inr (.inr outcome))
  | error => exact outcome.elim .inl fun error => .inr (.inl error)

theorem checkPreview_counted (view : View) (preview : Bytes) (fresh : t.stats = .after counters []) :
    (env.checkPreview view preview t).ret = .continue ∧
        (env.checkPreview view preview t).data.stats = .after counters [] ∨
      (env.checkPreview view preview t).ret = .allow204 ∧
        (env.checkPreview view preview t).data.stats = .after counters [(.preview, .unprocessable)] ∨
      (env.checkPreview view preview t).ret = .error ∧
        (env.checkPreview view preview t).data.stats = .after counters [(.preview, .rebuildErrors)] := by
  simp only [StatEnv.checkPreview]
  split
  · refine .inr (.inl ⟨rfl, ?_⟩)
    rw [fresh]
    rfl
  · rename_i d _
    split
    · refine .inr (.inl ⟨rfl, ?_⟩)
      rw [fresh]
      rfl
    · rename_i body
      split
      · refine .inr (.inr ⟨rfl, ?_⟩)
        rw [fresh]
        rfl
      · rw [Bool.not_eq_false] at body
        rw [body]
        exact .inl ⟨gwPreview_continue d view.hasalldata preview, fresh⟩

theorem endOfData_counted (view : View) (before : t.Counted counters PreviewLog) :
    (env.endOfData view t).data.Counted counters RequestLog := by
  obtain ⟨log, front, stats⟩ := before
  simp only [StatEnv.endOfData]
  split
  · exact ⟨log, .unscanned front, stats⟩
  · rename_i d _
    obtain ⟨id, outcome, counted⟩ := rebuildRequestBodyStats_scanned env.proxy d t.stats
    refine ⟨_, .scanned front outcome, counted.trans ?_⟩
    rw [stats, ← GwStats.after_snoc, ← GwStats.after_snoc, List.append_assoc]
    rfl

theorem stat_staged {S : Setting StatState} {env : StatEnv} (svc : S.svc = statService env) :
    S.Staged env.checkPreview env.endOfData (fun t => t.stats = .after counters [])
      (fun t => t.stats = .after counters []) (fun t => t.stats = .after counters [(.preview, .unprocessable)])
      (fun t => t.stats = .after counters [(.preview, .rebuildErrors)]) (·.Counted counters RequestLog) where
  checkPreview := by rw [svc]; rfl
  endOfData := by rw [svc]; rfl
  checked view data t _ fresh := checkPreview_counted env view data fresh
  ended view t _ stands := by
    refine endOfData_counted env view ?_
    rcases stands with going | ⟨passed, -⟩
    · exact ⟨_, .inl rfl, going⟩
    · exact ⟨_, .inr rfl, passed⟩
  going t c going := by
    rw [svc]
    exact (StatEnv.rebuildIo_stats t c).trans going
  passed t c passed := by
    rw [svc]
    exact (StatEnv.rebuildIo_stats t c).trans passed
  behind t c ended := by
    obtain ⟨log, kind, stats⟩ := ended
    rw [svc]
    exact ⟨log, kind, (StatEnv.rebuildIo_stats t c).trans stats⟩

/-- At every point of a request. -/
theorem request_counted {S : Setting StatState} {env : StatEnv} (svc : S.svc = statService env)
    {q0 : Exchange (RequestData StatState)} (start : q0.data.service.stats = ⟨counters, []⟩)
    (passes : S.Passes q0 t) : t.Counted counters RequestLog := by
  cases (stat_staged svc).passes (start : q0.data.service.stats = .after counters []) passes with
  | fresh fresh => exact ⟨_, .unscanned (.inl rfl), fresh⟩
  | going going => exact ⟨_, .unscanned (.inl rfl), going⟩
  | passed passed => exact ⟨_, .unscanned (.inr rfl), passed⟩
  | failed failed => exact ⟨_, .failed, failed⟩
  | ended ended => exact ended

end

/-! ### The requests of a server -/

/-- Requests one behind the other, each up to some point of its run, with the increments of each. -/
inductive GwHistory : (GwStat → UInt64) → List (List (GwStage × GwStat)) → Prop where
  | start : GwHistory (fun _ => 0) []
  | request {counters : GwStat → UInt64} {logs : List (List (GwStage × GwStat))} (before : GwHistory counters logs)
      {S : Setting StatState} {env : StatEnv} (svc : S.svc = statService env)
      {q0 : Exchange (RequestData StatState)} (start : q0.data.service.stats = ⟨counters, []⟩) {t : StatState}
      (passes : S.Passes q0 t) : GwHistory t.stats.counters (logs ++ [t.stats.log])

/-- The increments of a counter by one of the handlers. -/
def increments (logs : List (List (GwStage × GwStat))) (stage : GwStage) (id : GwStat) : Nat :=
  logs.flatten.count (stage, id)

/-- A request that is scanned has one outcome, and an error of the preview handler is that of a request which is not. -/
structure BalancedLog (log : List (GwStage × GwStat)) : Prop where
  outcomes : log.count (.endOfData, .scanReqs) =
    log.count (.endOfData, .rebuildSuccesses) + log.count (.endOfData, .rebuildFailures) +
      log.count (.endOfData, .notProcessed) + log.count (.endOfData, .rebuildErrors)
  once : log.count (.endOfData, .scanReqs) ≤ 1
  unscanned : (.preview, .rebuildErrors) ∈ log → (.endOfData, .scanReqs) ∉ log
  preview : ∀ id, (.preview, id) ∈ log → id = .rebuildErrors ∨ id = .unprocessable

theorem RequestLog.balanced {log : List (GwStage × GwStat)} (request : RequestLog log) : BalancedLog log := by
  cases request with
  | unscanned preview =>
      rcases preview with rfl | rfl
      · exact ⟨rfl, Nat.zero_le _, by simp, by simp⟩
      · exact ⟨rfl, Nat.zero_le _, by simp, by simp⟩
  | failed => exact ⟨rfl, Nat.zero_le _, by simp, by simp⟩
  | scanned preview outcome =>
      rcases preview with rfl | rfl <;> rcases outcome with rfl | rfl | rfl | rfl <;>
        exact ⟨rfl, by decide, by simp, by simp⟩

theorem increments_snoc (logs : List (List (GwStage × GwStat))) (log : List (GwStage × GwStat)) (stage : GwStage)
    (id : GwStat) : increments (logs ++ [log]) stage id = increments logs stage id + log.count (stage, id) := by
  rw [increments, List.flatten_append, List.count_append, List.flatten_singleton, increments]

theorem countP_stages (log : List (GwStage × GwStat)) (id : GwStat) :
    (log.countP fun entry => entry.2 = id) = log.count (.preview, id) + log.count (.endOfData, id) := by
  induction log with
  | nil => rfl
  | cons entry log ih =>
      obtain ⟨stage, other⟩ := entry
      rw [List.countP_cons, List.count_cons, List.count_cons, ih]
      by_cases same : other = id
      · subst same
        cases stage <;> simp <;> omega
      · simp [same]

theorem GwHistory.log_kind {counters : GwStat → UInt64} {S : Setting StatState} {env : StatEnv}
    (svc : S.svc = statService env) {q0 : Exchange (RequestData StatState)}
    (start : q0.data.service.stats = ⟨counters, []⟩) {t : StatState} (passes : S.Passes q0 t) :
    RequestLog t.stats.log ∧ t.stats = .after counters t.stats.log := by
  obtain ⟨log, kind, stats⟩ := request_counted svc start passes
  have same : t.stats.log = log := by rw [stats, GwStats.log_after]
  exact ⟨same ▸ kind, same ▸ stats⟩

theorem GwHistory.balanced {counters : GwStat → UInt64} {logs : List (List (GwStage × GwStat))}
    (history : GwHistory counters logs) : ∀ log ∈ logs, BalancedLog log := by
  induction history with
  | start => exact fun log member => absurd member List.not_mem_nil
  | request before svc start passes ih =>
      intro log member
      rcases List.mem_append.1 member with earlier | last
      · exact ih log earlier
      · rw [List.mem_singleton.1 last]
        exact (log_kind svc start passes).1.balanced

theorem GwHistory.counted {counters : GwStat → UInt64} {logs : List (List (GwStage × GwStat))}
    (history : GwHistory counters logs) (id : GwStat) :
    counters id = UInt64.ofNat (increments logs .preview id + increments logs .endOfData id) := by
  induction history with
  | start => rfl
  | @request counters logs before S env svc q0 start t passes ih =>
      rw [(log_kind svc start passes).2, GwStats.counters_after, GwStats.log_after, ih, ← UInt64.ofNat_add,
        countP_stages, increments_snoc, increments_snoc]
      congr 1
      omega

end IcapService
