import HathRs.Cooldowns
import HathRs.LruSweep
import HathRs.RequestHandling

/-!
# Which cached files are verified while they are sent

Requests for cached files, registrations of downloaded files and the sweep share the table of
recent files, and the requests share the cooldown. A request whose file has a clear bit asks the
cooldown, which lets one through every two seconds. A HEAD and a file that cannot be opened use it up
too, although they verify nothing. Marks, checks of the cooldown and sweeps are atomic steps, and
other tasks run between them.
-/

namespace HathRs.FileVerification
open TextParsing FileIds MachineArithmetic LruState RequestHandling StreamingBodies
open TransitionRuns Cooldowns
open LruSweep (SetSince Clears sweep)

/-! ## The cooldown -/

/-- Two seconds in nanoseconds. -/
def verificationWait : ℕ := 2000000000

/-- Whether the cooldown is on, and when it last let a request through. The clock is read twice
under the lock. -/
def isFileVerificationOnCooldown (last read stored : ℕ) : Bool × ℕ :=
  if (read - last) / 1000000 < 2000 then (true, last) else (false, stored)

/-! ## Tasks -/

/-- `accesses` is all that has been done to the table, and `grants` the times at which the cooldown
let a request through, the latest first. -/
structure World where
  lru : LruState
  lastFileVerificationCooldown : ℕ
  clock : ℕ
  accesses : List LruSweep.Event
  grants : List ℕ

def World.start (lru : LruState) (began : ℕ) : World := ⟨lru, began, began, [], []⟩

/-- A request for a file that is in the cache, with what else there is to answer it. -/
structure CachedRequest where
  hv : HVFile
  config : RequestConfig
  answers : Answers
  headOnly : Bool

/-- A request whose file was marked: the number of its access, whether the bit was clear, when
the cooldown was asked and when it let the request through. -/
structure Asked where
  request : CachedRequest
  access : ℕ
  recentlyAccessed : Bool
  checkedAt : Option ℕ
  granted : Option ℕ

/-- There is something to verify. -/
def Asked.asks (a : Asked) : Bool :=
  a.recentlyAccessed && !a.request.config.disableFileVerification

/-- The rest of `handle_file_serve` -/
def Asked.handled (a : Asked) (opened : Option ℕ) : Handled :=
  cachedFile a.request.config
    { a.request.answers with
      recentlyAccessed := a.recentlyAccessed
      onCooldown := a.granted.isNone
      opened := opened }
    a.request.hv a.request.headOnly

inductive Task where
  | mark (request : CachedRequest)
  | check (asked : Asked)
  | respond (asked : Asked)
  | responded (asked : Asked) (handled : Handled)
  /-- `register_proxy_file` before it marks its file. -/
  | register (hv : HVFile)
  | cycle

inductive Request where
  | serve (request : CachedRequest)
  | register (hv : HVFile)
  | cycle

inductive Act where
  | done
  | lock (free : Bool)
  | clock (read stored : ℕ)
  | opened (length : Option ℕ)

def start (_ : World) (_ : List Task) : Request → Option Task
  | .serve request => some (.mark request)
  | .register hv => some (.register hv)
  | .cycle => some .cycle

/-- The table after a step, and the step among the accesses. -/
def World.access (w : World) (lru : LruState) (event : LruSweep.Event) : World :=
  { w with lru := lru, accesses := w.accesses ++ [event] }

def advance (build : Build) (w : World) : Task → Act → Option (World × Option Task)
  | .mark request, .done =>
    match w.lru.markRecentlyAccessed request.hv.fileid with
    | .ok (marked, lru) =>
      some (w.access lru (.mark request.hv),
        some (.check ⟨request, w.accesses.length, marked, none, none⟩))
    | .error _ => none
  | .check asked, .done => if asked.asks then none else some (w, some (.respond asked))
  | .check asked, .clock read stored =>
    if asked.asks ∧ w.clock ≤ read ∧ read ≤ stored then
      let asked := { asked with checkedAt := some read }
      match isFileVerificationOnCooldown w.lastFileVerificationCooldown read stored with
      | (true, last) =>
        some ({ w with lastFileVerificationCooldown := last, clock := stored }, some (.respond asked))
      | (false, last) =>
        some ({ w with
            lastFileVerificationCooldown := last
            clock := stored
            grants := stored :: w.grants },
          some (.respond { asked with granted := some stored }))
    else none
  | .respond asked, .opened length => some (w, some (.responded asked (asked.handled length)))
  | .register hv, .lock free =>
    if free then
      match w.lru.markRecentlyAccessed hv.fileid with
      | .ok (_, lru) => some (w.access lru (.mark hv), none)
      | .error _ => none
    else some (w, none)
  | .cycle, .lock free =>
    if free then
      match w.lru.cycle build with
      | .ok lru => some (w.access lru .cycle, none)
      | .error _ => none
    else some (w, none)
  | _, _ => none

abbrev System := Pool World Task

abbrev Event := PoolEvent Request Act

def step (build : Build) : System → Event → Option System := Pool.step start (advance build)

/-! ## What a step can do -/

namespace Task

def access : Task → Option ℕ
  | .check asked | .respond asked | .responded asked _ => some asked.access
  | .mark _ | .register _ | .cycle => none

def granted : Task → Option ℕ
  | .check asked | .respond asked | .responded asked _ => asked.granted
  | .mark _ | .register _ | .cycle => none

end Task

inductive Advances (build : Build) : World → Task → World → Option Task → Prop where
  | mark {w : World} {request : CachedRequest} {marked : Bool} {lru : LruState}
    (h : w.lru.markRecentlyAccessed request.hv.fileid = .ok (marked, lru)) :
    Advances build w (.mark request) (w.access lru (.mark request.hv))
      (some (.check ⟨request, w.accesses.length, marked, none, none⟩))
  | skip {w : World} {asked : Asked} (h : asked.asks = false) :
    Advances build w (.check asked) w (some (.respond asked))
  | refuse {w : World} {asked : Asked} {read stored : ℕ} (hread : w.clock ≤ read) (hstored : read ≤ stored)
    (hwait : read < w.lastFileVerificationCooldown + verificationWait) :
    Advances build w (.check asked) { w with clock := stored }
      (some (.respond { asked with checkedAt := some read }))
  | grant {w : World} {asked : Asked} {read stored : ℕ} (hasks : asked.asks = true)
    (hstored : read ≤ stored) (hwait : w.lastFileVerificationCooldown + verificationWait ≤ read) :
    Advances build w (.check asked)
      { w with
        lastFileVerificationCooldown := stored
        clock := stored
        grants := stored :: w.grants }
      (some (.respond { asked with checkedAt := some read, granted := some stored }))
  | respond {w : World} {asked : Asked} (length : Option ℕ) :
    Advances build w (.respond asked) w (some (.responded asked (asked.handled length)))
  | access {w : World} {task : Task} {lru : LruState} {event : LruSweep.Event}
    (htask : task.access = none ∧ task.granted = none)
    (h : LruSweep.step build w.lru event = .ok lru) : Advances build w task (w.access lru event) none
  | leave {w : World} {task : Task} (htask : task.access = none ∧ task.granted = none) :
    Advances build w task w none

/-- The two seconds, counted in whole milliseconds, are over. -/
theorem elapsed_lt_iff {last read : ℕ} (h : last ≤ read) :
    (read - last) / 1000000 < 2000 ↔ read < last + verificationWait := by
  unfold verificationWait
  omega

theorem advances_of_advance {build : Build} {w w' : World} {task : Task} {act : Act}
    {next : Option Task} (hclock : w.lastFileVerificationCooldown ≤ w.clock)
    (h : advance build w task act = some (w', next)) : Advances build w task w' next := by
  cases task <;> cases act <;> simp only [advance, reduceCtorEq] at h
  case mark.done request =>
    split at h
    · obtain ⟨rfl, rfl⟩ := Prod.mk.inj (Option.some.inj h)
      exact .mark ‹_›
    · cases h
  case check.done asked =>
    split_ifs at h with hasks
    obtain ⟨rfl, rfl⟩ := Prod.mk.inj (Option.some.inj h)
    exact .skip (Bool.eq_false_iff.mpr hasks)
  case check.clock asked read stored =>
    split_ifs at h with hcheck
    obtain ⟨hasks, hread, hstored⟩ := hcheck
    simp only [isFileVerificationOnCooldown] at h
    split_ifs at h with hwait
    · obtain ⟨rfl, rfl⟩ := Prod.mk.inj (Option.some.inj h)
      exact .refuse hread hstored ((elapsed_lt_iff (hclock.trans hread)).mp hwait)
    · obtain ⟨rfl, rfl⟩ := Prod.mk.inj (Option.some.inj h)
      rw [elapsed_lt_iff (hclock.trans hread), not_lt] at hwait
      exact .grant hasks hstored hwait
  case respond.opened asked length =>
    obtain ⟨rfl, rfl⟩ := Prod.mk.inj (Option.some.inj h)
    exact .respond length
  case register.lock hv free =>
    split_ifs at h
    · split at h
      · obtain ⟨rfl, rfl⟩ := Prod.mk.inj (Option.some.inj h)
        refine .access ⟨rfl, rfl⟩ ?_
        rw [LruSweep.step, ‹w.lru.markRecentlyAccessed hv.fileid = _›]
        rfl
      · cases h
    · obtain ⟨rfl, rfl⟩ := Prod.mk.inj (Option.some.inj h)
      exact .leave ⟨rfl, rfl⟩
  case cycle.lock free =>
    split_ifs at h
    · split at h
      · obtain ⟨rfl, rfl⟩ := Prod.mk.inj (Option.some.inj h)
        exact .access ⟨rfl, rfl⟩ ‹_›
      · cases h
    · obtain ⟨rfl, rfl⟩ := Prod.mk.inj (Option.some.inj h)
      exact .leave ⟨rfl, rfl⟩

/-! ## What holds in every run -/

section Invariants

variable (build : Build) (lru : LruState) (began : ℕ) (w : World)

/-- The mark of the request is among the accesses, and it told whether the bit was clear. -/
structure Marked (asked : Asked) : Prop where
  access : w.accesses[asked.access]? = some (.mark asked.request.hv)
  clear : ∀ i bit, bit < 16 → mapsTo asked.request.hv i bit → (asked.recentlyAccessed = true ↔
    ¬ SetSince build lru (w.accesses.take asked.access) i bit)

/-- Verifications are let through when there is something to verify, and they are refused only
within two seconds from another one, or from the start. -/
structure Decided (asked : Asked) : Prop where
  asks : asked.granted ≠ none → asked.asks = true
  recent : asked.granted = none → asked.asks = true → ∃ t ∈ w.grants ++ [began],
    ∃ read ∈ asked.checkedAt, t ≤ read ∧ read < t + verificationWait

def TaskInv : Task → Prop
  | .mark _ | .register _ | .cycle => True
  | .check asked => Marked build lru w asked ∧ asked.granted = none
  | .respond asked => Marked build lru w asked ∧ Decided began w asked
  | .responded asked handled => Marked build lru w asked ∧ Decided began w asked ∧
      ∃ length, handled = asked.handled length

structure WorldInv : Prop where
  table : sweep build lru w.accesses = .ok w.lru
  clock : w.lastFileVerificationCooldown ≤ w.clock
  latest : ∃ earlier, w.grants ++ [began] = w.lastFileVerificationCooldown :: earlier
  spaced : Spaced verificationWait (w.grants ++ [began])

structure Inv (p : System) : Prop where
  world : WorldInv build lru began p.world
  tasks : ∀ task ∈ p.tasks, TaskInv build lru began p.world task
  accesses : (p.tasks.filterMap Task.access).Nodup
  grants : (p.tasks.filterMap Task.granted).Perm p.world.grants

end Invariants

section Steps

variable {build : Build} {lru : LruState} {began : ℕ} {w w' : World} {task : Task}

/-- What a step leaves to the other tasks. -/
structure Extends (w w' : World) : Prop where
  accesses : w.accesses <+: w'.accesses
  grants : w.grants <:+ w'.grants

theorem Marked.mono {asked : Asked} (h : Marked build lru w asked) (hext : Extends w w') :
    Marked build lru w' asked := by
  obtain ⟨more, hmore⟩ := hext.accesses
  have hlt := (List.getElem?_eq_some_iff.mp h.access).1
  constructor
  · rw [← hmore, List.getElem?_append_left hlt]
    exact h.access
  · rw [← hmore, List.take_append_of_le_length hlt.le]
    exact h.clear

theorem Decided.mono {asked : Asked} (h : Decided began w asked) (hext : Extends w w') :
    Decided began w' asked := by
  refine ⟨h.asks, fun hnone hasks => ?_⟩
  obtain ⟨t, ht, hread⟩ := h.recent hnone hasks
  refine ⟨t, List.mem_append.mpr ?_, hread⟩
  exact (List.mem_append.mp ht).imp_left fun hin => hext.grants.subset hin

theorem TaskInv.mono (h : TaskInv build lru began w task) (hext : Extends w w') :
    TaskInv build lru began w' task := by
  cases task with
  | mark | register | cycle => trivial
  | check asked => exact ⟨h.1.mono hext, h.2⟩
  | respond asked => exact ⟨h.1.mono hext, h.2.mono hext⟩
  | responded asked handled => exact ⟨h.1.mono hext, h.2.1.mono hext, h.2.2⟩

theorem extends_of_advances {next : Option Task} (h : Advances build w task w' next) :
    Extends w w' := by
  cases h with
  | mark | access => exact ⟨List.prefix_append _ _, List.suffix_rfl⟩
  | skip | refuse | respond | leave => exact ⟨List.prefix_rfl, List.suffix_rfl⟩
  | grant => exact ⟨List.prefix_rfl, List.suffix_cons _ _⟩

theorem WorldInv.access (hw : WorldInv build lru began w) {next : LruState} {event : LruSweep.Event}
    (h : LruSweep.step build w.lru event = .ok next) :
    WorldInv build lru began (w.access next event) :=
  ⟨LruSweep.sweep_concat hw.table h, hw.clock, hw.latest, hw.spaced⟩

/-- The mark of a request as a step of the table. -/
theorem step_of_mark {hv : HVFile} {marked : Bool} {next : LruState}
    (h : w.lru.markRecentlyAccessed hv.fileid = .ok (marked, next)) :
    LruSweep.step build w.lru (.mark hv) = .ok next := by
  rw [LruSweep.step, h]
  rfl

theorem WorldInv.advances (hw : WorldInv build lru began w) {next : Option Task}
    (h : Advances build w task w' next) : WorldInv build lru began w' := by
  cases h with
  | mark h => exact hw.access (step_of_mark h)
  | access htask h => exact hw.access h
  | skip | respond | leave => exact hw
  | refuse hread hstored hwait =>
    exact ⟨hw.table, hw.clock.trans (hread.trans hstored), hw.latest, hw.spaced⟩
  | grant hasks hstored hwait =>
    obtain ⟨earlier, hearlier⟩ := hw.latest
    have hspaced := hw.spaced
    rw [hearlier] at hspaced
    refine ⟨hw.table, le_rfl, ⟨w.grants ++ [began], rfl⟩, ?_⟩
    rw [List.cons_append, hearlier]
    exact hspaced.cons (hwait.trans hstored)

/-- What the task itself is left with. -/
theorem TaskInv.advances (hlru : lru.lruClearPointer.toNat < lruCacheSize)
    (hw : WorldInv build lru began w) (ht : TaskInv build lru began w task) {next : Option Task}
    (h : Advances build w task w' next) : ∀ t ∈ next, TaskInv build lru began w' t := by
  intro t hnext
  have hext := extends_of_advances h
  cases h with
  | @mark request marked table h =>
    obtain rfl := Option.some.inj hnext
    refine ⟨⟨by simp [World.access], fun i bit hbit hmap => ?_⟩, rfl⟩
    rw [World.access, List.take_left, LruSweep.marked_iff hmap h,
      LruSweep.bitSet_iff_setSince hlru hbit hw.table]
  | skip hasks =>
    obtain rfl := Option.some.inj hnext
    refine ⟨ht.1, fun hne => absurd ht.2 hne, fun _ hyes => ?_⟩
    rw [hasks] at hyes
    cases hyes
  | @refuse asked read stored hread hstored hwait =>
    obtain rfl := Option.some.inj hnext
    refine ⟨⟨ht.1.access, ht.1.clear⟩, fun hne => absurd ht.2 hne, fun _ _ => ?_⟩
    obtain ⟨earlier, hearlier⟩ := hw.latest
    refine ⟨w.lastFileVerificationCooldown, ?_, read, rfl, hw.clock.trans hread, hwait⟩
    rw [hearlier]
    exact List.mem_cons_self
  | grant hasks hstored hwait =>
    obtain rfl := Option.some.inj hnext
    have hmarked := ht.1.mono hext
    exact ⟨⟨hmarked.access, hmarked.clear⟩, fun _ => hasks, fun hnone => by cases hnone⟩
  | respond length =>
    obtain rfl := Option.some.inj hnext
    exact ⟨ht.1, ht.2, length, rfl⟩
  | access | leave => cases hnext

theorem access_of_advances {next : Option Task} (h : Advances build w task w' next) :
    next.bind Task.access = task.access ∨
      task.access = none ∧ next.bind Task.access = some w.accesses.length := by
  cases h with
  | mark => exact .inr ⟨rfl, rfl⟩
  | skip | refuse | grant | respond => exact .inl rfl
  | access htask | leave htask => exact .inl htask.1.symm

theorem granted_of_advances (ht : TaskInv build lru began w task) {next : Option Task}
    (h : Advances build w task w' next) :
    next.bind Task.granted = task.granted ∧ w'.grants = w.grants ∨
      ∃ g, task.granted = none ∧ next.bind Task.granted = some g ∧ w'.grants = g :: w.grants := by
  cases h with
  | mark | skip | refuse | respond => exact .inl ⟨rfl, rfl⟩
  | @grant asked read stored => exact .inr ⟨stored, ht.2, rfl, rfl⟩
  | access htask | leave htask => exact .inl ⟨htask.2.symm, rfl⟩

theorem lt_of_access (ht : TaskInv build lru began w task) {k : ℕ} (hk : task.access = some k) :
    k < w.accesses.length := by
  cases task with
  | mark | register | cycle => cases hk
  | check asked | respond asked | responded asked handled =>
    obtain rfl := Option.some.inj hk
    exact (List.getElem?_eq_some_iff.mp ht.1.access).1

theorem filterMap_replaced (f : Task → Option ℕ) (before after : List Task) (next : Option Task) :
    (before ++ next.toList ++ after).filterMap f =
      before.filterMap f ++ ((next.bind f).toList ++ after.filterMap f) := by
  cases next with
  | none => simp
  | some t => cases hf : f t <;> simp [hf]

theorem inv_start (lru : LruState) (began : ℕ) : Inv build lru began ⟨.start lru began, []⟩ where
  world := ⟨rfl, le_rfl, ⟨[], rfl⟩, spaced_singleton _ _⟩
  tasks := by simp
  accesses := List.nodup_nil
  grants := List.Perm.refl _

theorem Inv.step (hlru : lru.lruClearPointer.toNat < lruCacheSize) {p q : System} {e : Event}
    (h : Inv build lru began p) (hstep : step build p e = some q) : Inv build lru began q := by
  rcases Pool.step_cases hstep with ⟨request, task, -, hstart, rfl⟩ |
    ⟨index, act, task, world, next, before, after, -, -, htasks, hadvance, rfl⟩
  · have htask : TaskInv build lru began p.world task ∧ task.access = none ∧ task.granted = none := by
      cases request <;> cases hstart <;> exact ⟨trivial, rfl, rfl⟩
    refine ⟨h.world, fun t ht => ?_, ?_, ?_⟩
    · rcases List.mem_append.mp ht with hold | hnew
      · exact h.tasks t hold
      · exact List.mem_singleton.mp hnew ▸ htask.1
    · simpa [List.filterMap_append, htask.2.1] using h.accesses
    · simpa [List.filterMap_append, htask.2.2] using h.grants
  · have hmem : task ∈ p.tasks := htasks ▸ List.mem_append_right _ List.mem_cons_self
    have hadv := advances_of_advance h.world.clock hadvance
    have hext := extends_of_advances hadv
    have ht := h.tasks task hmem
    have hsplit : ∀ f : Task → Option ℕ, p.tasks.filterMap f =
        before.filterMap f ++ ((f task).toList ++ after.filterMap f) := by
      intro f
      have hreplaced := filterMap_replaced f before after (some task)
      rwa [Option.toList_some, List.append_assoc, List.singleton_append, ← htasks] at hreplaced
    refine ⟨h.world.advances hadv, fun t hin => ?_, ?_, ?_⟩
    · simp only [List.mem_append, Option.mem_toList] at hin
      rcases hin with (hin | hin) | hin
      · exact (h.tasks t (htasks ▸ List.mem_append_left _ hin)).mono hext
      · exact ht.advances hlru h.world hadv t hin
      · exact (h.tasks t (htasks ▸ List.mem_append_right _ (List.mem_cons_of_mem _ hin))).mono hext
    · have hnodup := h.accesses
      rw [hsplit] at hnodup
      rw [filterMap_replaced]
      rcases access_of_advances hadv with hsame | ⟨hnone, hnew⟩
      · rwa [hsame]
      · rw [hnone, Option.toList_none, List.nil_append] at hnodup
        rw [hnew, Option.toList_some, List.singleton_append]
        refine List.nodup_middle.mpr (List.nodup_cons.mpr ⟨fun hin => ?_, hnodup⟩)
        -- every access so far has a smaller number
        have hin : p.world.accesses.length ∈ p.tasks.filterMap Task.access := by
          rw [hsplit, hnone]
          exact hin
        obtain ⟨t, ht, haccess⟩ := List.mem_filterMap.mp hin
        exact absurd (lt_of_access (h.tasks t ht) haccess) (lt_irrefl _)
    · have hperm := h.grants
      rw [hsplit] at hperm
      rw [filterMap_replaced]
      rcases granted_of_advances ht hadv with ⟨hsame, hgrants⟩ | ⟨g, hnone, hnew, hgrants⟩
      · rw [hsame]
        exact hgrants ▸ hperm
      · rw [hnone, Option.toList_none, List.nil_append] at hperm
        rw [hnew, Option.toList_some, List.singleton_append]
        show List.Perm _ world.grants
        rw [hgrants]
        exact List.perm_middle.trans (hperm.cons g)

theorem inv_of_run (hlru : lru.lruClearPointer.toNat < lruCacheSize) {events : List Event}
    {s : System} (hrun : run (FileVerification.step build) ⟨.start lru began, []⟩ events = some s) :
    Inv build lru began s :=
  run_invariant (fun _ _ _ h _ hstep => h.step hlru hstep) (inv_start lru began) (allSteps_true _ _) hrun

end Steps

/-! ## The verifications of a run -/

/-- The file that a response sends. -/
def sentFile (handled : Handled) : Option FileBodyParams :=
  handled.response.bind fun response =>
    match response.body with
    | .file params => some params
    | _ => none

/-- When the cooldown let the response through, if it verifies its file. -/
def Task.verified : Task → Option ℕ
  | .responded asked handled => asked.granted.filter fun _ => (sentFile handled).any FileBodyParams.verify
  | _ => none

section Runs

variable {build : Build} {lru : LruState} {began : ℕ} {w : World} {events : List Event} {s : System}

theorem sentFile_handled {asked : Asked} {length : Option ℕ} {params : FileBodyParams}
    (h : sentFile (asked.handled length) = some params) :
    params.verify = (asked.asks && asked.granted.isSome) := by
  unfold sentFile Asked.handled cachedFile fileResponse at h
  dsimp only [Handled.after] at h
  cases length with
  | none => cases h
  | some length =>
    by_cases hother : length ≠ asked.request.hv.size.toNat
    · simp only [if_pos hother] at h
      cases h
    · simp only [if_neg hother] at h
      split_ifs at h
      · cases h
      · obtain rfl := Option.some.inj h
        cases asked.granted <;> simp [Asked.asks]

theorem spaced_grants (h : WorldInv build lru began w) :
    Spaced verificationWait w.grants ∧ ∀ g ∈ w.grants, began + verificationWait ≤ g := by
  obtain ⟨hspaced, -, hfar⟩ := List.pairwise_append.mp h.spaced
  exact ⟨hspaced, fun g hg => hfar g hg began List.mem_cons_self⟩

theorem granted_of_verified {task : Task} {g : ℕ} (h : task.verified = some g) :
    task.granted = some g := by
  cases task with
  | responded asked handled => exact (Option.filter_eq_some_iff.mp h).1
  | mark | check | respond | register | cycle => cases h

/-- No more responses verify in a window than requests are let through. -/
theorem countP_verified_le (tasks : List Task) (p : ℕ → Bool) :
    tasks.countP (fun task => task.verified.any p) ≤ (tasks.filterMap Task.granted).countP p := by
  rw [List.countP_filterMap]
  refine List.countP_mono_left fun task _ h => ?_
  obtain ⟨g, hg, hp⟩ := (Option.any_eq_true _ _).mp h
  rw [granted_of_verified hg]
  exact hp

/-- The accesses after the first mark and before the second. -/
def World.between (w : World) (first second : Asked) : List LruSweep.Event :=
  (w.accesses.take second.access).drop (first.access + 1)

/-- Between two marks of which the second finds the bit clear its word is cleared. -/
theorem Marked.cleared {first second : Asked} (hfirst : Marked build lru w first)
    (hsecond : Marked build lru w second) (hclear : second.recentlyAccessed = true)
    (hlt : first.access < second.access) {i bit : ℕ} (hbit : bit < 16)
    (hi : mapsTo first.request.hv i bit) (hi' : mapsTo second.request.hv i bit) :
    ∃ front back swept, w.between first second = front ++ .cycle :: back ∧
      sweep build lru (w.accesses.take (first.access + 1) ++ front) = .ok swept ∧ Clears swept i := by
  have hmark : w.accesses.take (first.access + 1) =
      w.accesses.take first.access ++ [.mark first.request.hv] := by
    rw [List.take_add_one, hfirst.access]
    rfl
  have hsplit : w.accesses.take second.access =
      w.accesses.take (first.access + 1) ++ w.between first second := by
    have hwhole := List.take_append_drop (first.access + 1) (w.accesses.take second.access)
    rw [List.take_take, min_eq_left (Nat.succ_le_of_lt hlt)] at hwhole
    exact hwhole.symm
  by_contra hnever
  refine (hsecond.clear i bit hbit hi').mp hclear ⟨_, _, hsplit, .inr ⟨_, _, hmark, hi⟩, ?_⟩
  intro front back swept hbetween hrun hclears
  exact hnever ⟨front, back, swept, hbetween, hrun, hclears⟩

/-- In every order of requests for cached files, registrations and sweeps, with clocks that do not
go back: any window of time has at most one response that verifies its file for every two seconds
begun, and none comes in the first two seconds. Two files that share a bit of the table, such as
the same one, are not both verified unless a sweep between their marks has cleared its word. A file
is sent without verification only if its bit had been set since the last sweep over it, if the
verification is switched off, or if the cooldown began with the start or was let through, also by a
HEAD or a failed open, less than two seconds before it was asked. -/
theorem verification_paced (hlru : lru.lruClearPointer.toNat < lruCacheSize)
    (hrun : run (step build) ⟨.start lru began, []⟩ events = some s) :
    (∀ start length, s.tasks.countP (fun task => task.verified.any fun g =>
      start ≤ g && g < start + length) ≤ (length + (verificationWait - 1)) / verificationWait) ∧
    (∀ task ∈ s.tasks, ∀ g, task.verified = some g → began + verificationWait ≤ g) ∧
    (∀ first handled second handled', .responded first handled ∈ s.tasks →
      .responded second handled' ∈ s.tasks → (Task.responded second handled').verified ≠ none →
      first.access < second.access → ∀ i bit, bit < 16 → mapsTo first.request.hv i bit →
      mapsTo second.request.hv i bit →
      ∃ front back swept, s.world.between first second = front ++ .cycle :: back ∧
        sweep build lru (s.world.accesses.take (first.access + 1) ++ front) = .ok swept ∧
        Clears swept i) ∧
    (s.tasks.filterMap Task.access).Nodup ∧
    ∀ asked handled params, .responded asked handled ∈ s.tasks → sentFile handled = some params →
      params.verify = false →
      (∃ i bit, bit < 16 ∧ mapsTo asked.request.hv i bit ∧
        SetSince build lru (s.world.accesses.take asked.access) i bit) ∨
      asked.request.config.disableFileVerification = true ∨
      ∃ t ∈ s.world.grants ++ [began], ∃ read ∈ asked.checkedAt,
        t ≤ read ∧ read < t + verificationWait := by
  have hinv := inv_of_run hlru hrun
  obtain ⟨hspaced, hfirst⟩ := spaced_grants hinv.world
  refine ⟨fun start length => ?_, fun task htask g hg => ?_, ?_, hinv.accesses, ?_⟩
  · calc s.tasks.countP (fun task => task.verified.any fun g => start ≤ g && g < start + length)
        ≤ (s.tasks.filterMap Task.granted).countP (fun g => start ≤ g && g < start + length) :=
          countP_verified_le s.tasks _
      _ = s.world.grants.countP (fun g => start ≤ g && g < start + length) := hinv.grants.countP_eq _
      _ ≤ (length + (verificationWait - 1)) / verificationWait := hspaced.countP_le (by decide) start length
  · refine hfirst g (hinv.grants.mem_iff.mp ?_)
    exact List.mem_filterMap.mpr ⟨task, htask, granted_of_verified hg⟩
  · intro first handled second handled' hin hin' hverified hlt i bit hbit hi hi'
    obtain ⟨g, hg⟩ := Option.ne_none_iff_exists'.mp hverified
    have hgranted := granted_of_verified hg
    have htask := hinv.tasks _ hin
    have htask' := hinv.tasks _ hin'
    have hasks := htask'.2.1.asks (Option.ne_none_iff_exists'.mpr ⟨g, hgranted⟩)
    exact htask.1.cleared htask'.1 (Bool.and_eq_true_iff.mp hasks).1 hlt hbit hi hi'
  · intro asked handled params hin hsent hverify
    obtain ⟨hmarked, hdecided, length, rfl⟩ := hinv.tasks _ hin
    rw [sentFile_handled hsent] at hverify
    by_cases hrecent : asked.recentlyAccessed = true
    · by_cases hdisabled : asked.request.config.disableFileVerification = true
      · exact .inr (.inl hdisabled)
      · have hasks : asked.asks = true := by simp [Asked.asks, hrecent, hdisabled]
        rw [hasks, Bool.true_and] at hverify
        exact .inr (.inr (hdecided.recent (by simpa using hverify) hasks))
    · obtain ⟨i, bit, hbit, hmap⟩ := exists_mapsTo asked.request.hv
      exact .inl ⟨i, bit, hbit, hmap, not_not.mp (mt (hmarked.clear i bit hbit hmap).mpr hrecent)⟩

end Runs

/-! A file is requested for the first time, two seconds after the start. -/

def sampleRequest : CachedRequest := ⟨sampleFile, sampleRequests, idleAnswers, false⟩

def firstRequest : List Event :=
  [.start (.serve sampleRequest), .advance 0 .done, .advance 0 (.clock 2000000000 2000000001),
   .advance 0 (.opened (some sampleFile.size.toNat))]

theorem new_mark_sampleFile :
    ∃ lru, LruState.new.markRecentlyAccessed sampleFile.fileid = .ok (true, lru) := by
  obtain ⟨marked, lru, hmark, -⟩ := LruState.new.markRecentlyAccessed_fileid sampleFile
  obtain ⟨i, bit, -, hmap⟩ := exists_mapsTo sampleFile
  have htrue : marked = true := (LruSweep.marked_iff hmap hmark).mpr (not_bitSet_new i bit)
  exact ⟨lru, htrue ▸ hmark⟩

def firstAsked : Asked := ⟨sampleRequest, 0, true, some 2000000000, some 2000000001⟩

/-- The cooldown is over. -/
theorem advance_grant (build : Build) {w : World} {asked : Asked} {read stored : ℕ}
    (hasks : asked.asks = true) (hread : w.clock ≤ read) (hstored : read ≤ stored)
    (hwait : w.lastFileVerificationCooldown + verificationWait ≤ read) :
    advance build w (.check asked) (.clock read stored) =
      some ({ w with
          lastFileVerificationCooldown := stored
          clock := stored
          grants := stored :: w.grants },
        some (.respond { asked with checkedAt := some read, granted := some stored })) := by
  have hover : ¬ (read - w.lastFileVerificationCooldown) / 1000000 < 2000 := by
    rw [elapsed_lt_iff (by omega), not_lt]
    exact hwait
  have hcheck : asked.asks = true ∧ w.clock ≤ read ∧ read ≤ stored := ⟨hasks, hread, hstored⟩
  simp only [advance, isFileVerificationOnCooldown, if_pos hcheck, if_neg hover]

/-- A pool of one task. -/
theorem step_single {build : Build} {w w' : World} {task next : Task} {act : Act}
    (h : advance build w task act = some (w', some next)) :
    step build ⟨w, [task]⟩ (.advance 0 act) = some ⟨w', [next]⟩ := by
  simp [step, Pool.step, h]

theorem firstRequest_run {lru next : LruState}
    (hmark : lru.markRecentlyAccessed sampleFile.fileid = .ok (true, next)) :
    run (step .release) ⟨.start lru 0, []⟩ firstRequest =
      some ⟨⟨next, 2000000001, 2000000001, [.mark sampleFile], [2000000001]⟩,
        [.responded firstAsked (firstAsked.handled (some sampleFile.size.toNat))]⟩ := by
  have hmarked : advance .release (.start lru 0) (.mark sampleRequest) .done =
      some (World.access (.start lru 0) next (.mark sampleFile),
        some (.check ⟨sampleRequest, 0, true, none, none⟩)) := by
    simp only [advance, World.start, sampleRequest, hmark, List.length_nil]
  have hgranted : advance .release (World.access (.start lru 0) next (.mark sampleFile))
      (.check ⟨sampleRequest, 0, true, none, none⟩) (.clock 2000000000 2000000001) =
      some (⟨next, 2000000001, 2000000001, [.mark sampleFile], [2000000001]⟩, some (.respond firstAsked)) :=
    advance_grant .release rfl (Nat.zero_le _) (by omega)
      (by simp [World.access, World.start, verificationWait])
  refine (run_cons_of_step rfl _).trans ((run_cons_of_step (step_single hmarked) _).trans ?_)
  exact (run_cons_of_step (step_single hgranted) _).trans (run_cons_of_step (step_single rfl) _)

theorem firstRequest_paced : ∃ s,
    run (step .release) ⟨.start .new 0, []⟩ firstRequest = some s ∧
    (∃ task ∈ s.tasks, task.verified = some 2000000001) ∧
    s.tasks.countP (fun task => task.verified.any fun g => 0 ≤ g && g < 0 + 4000000000) ≤ 2 := by
  obtain ⟨lru, hmark⟩ := new_mark_sampleFile
  have hlru : LruState.new.lruClearPointer.toNat < lruCacheSize := by decide
  have hrun := firstRequest_run hmark
  have hpaced := (verification_paced hlru hrun).1 0 4000000000
  exact ⟨_, hrun, ⟨_, List.mem_singleton_self _, rfl⟩, hpaced⟩

end HathRs.FileVerification
