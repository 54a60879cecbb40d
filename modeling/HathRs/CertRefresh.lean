import HathRs.ServerGenerations

/-!
# Requests for a new certificate

A `refresh_certs` command sets a flag and notifies the watcher. The watcher looks at the flag
when it is woken, and clears it when the refresh is completed, which is after the new server
has downloaded its certificate and the server side has been told. A command that is handled
in between finds a flag that is cleared again.
-/

namespace HathRs.CertRefresh
open TaskLifecycles TransitionRuns ServerGenerations

/-- The phase of a server, and when it began to download its certificate. -/
def profile (w : World) (index : ℕ) : Phase × Option ℕ :=
  match w.servers[index]? with
  | none => (.starting, none)
  | some server => (server.generation.phase, server.downloadBegan)

def downloads (w : World) (index : ℕ) : Option ℕ := (profile w index).2

/-- The server that the current refresh has spawned. -/
def started : Watcher → Option ℕ
  | .starting (.awaitingReady index) | .restarted index | .resuming index => some index
  | _ => none

/-- The refresh has begun to download its certificate and is not completed. -/
def renewing (s : State) : Bool := ((started s.watcher).bind (downloads s.world)).isSome

/-- No command is being handled, from its setting of the flag to its notification, at any moment
from the beginning of a refresh's download to the clearing of the flag. -/
def Undisturbed (s : State) : Event → Prop
  | .commandSets => renewing s = false
  | .downloadBegins index => started s.watcher = some index → s.pending = 0
  | _ => True

instance (s : State) (e : Event) : Decidable (Undisturbed s e) :=
  match e with
  | .commandSets => inferInstanceAs (Decidable (renewing s = false))
  | .downloadBegins index => inferInstanceAs (Decidable (started s.watcher = some index → s.pending = 0))
  | .shutdownRequested | .main _ | .watcher _ | .server _ _ | .commandNotifies => .isTrue trivial

/-- The last completed refresh began its download after the last command. -/
def Fresh (s : State) : Prop :=
  ∀ h, s.lastHandled = some h → ∃ d, s.lastRefresh = some d ∧ h < d

/-- All commands are over, and were before the download. -/
def Ahead (s : State) (d : ℕ) : Prop := s.pending = 0 ∧ ∀ h, s.lastHandled = some h → h < d

/-! ## What happens to the servers -/

section Profiles

variable {w w' : World}

theorem isReady_eq (w : World) (index : ℕ) : w.isReady index = ((profile w index).1 != .starting) := by
  simp only [World.isReady, profile]
  cases w.servers[index]? <;> rfl

theorem bind_downloadBegan (w : World) (index : ℕ) :
    w.servers[index]?.bind Server.downloadBegan = downloads w index := by
  simp only [downloads, profile]
  cases w.servers[index]? <;> rfl

theorem profile_spawn (w : World) (late : Bool) : profile (w.spawn late) = profile w := by
  funext index
  simp only [profile, World.spawn, List.getElem?_append]
  split_ifs with hlt
  · rfl
  · rw [List.getElem?_eq_none (not_lt.mp hlt)]
    cases h : [(⟨.start, late, none⟩ : Server)][index - w.servers.length]? with
    | none => rfl
    | some server =>
      obtain rfl := List.mem_singleton.mp (List.mem_of_getElem? h)
      rfl

theorem profile_modify (w : World) (index : ℕ) {f : Server → Server}
    (hf : ∀ server, (f server).generation.phase = server.generation.phase ∧
      (f server).downloadBegan = server.downloadBegan) :
    profile { w with servers := w.servers.modify index f } = profile w := by
  funext i
  simp only [profile, List.getElem?_modify]
  cases w.servers[i]? with
  | none => rfl
  | some server =>
    by_cases hi : index = i
    · simpa [hi] using hf server
    · simp [hi]

theorem profile_set (w : World) {index : ℕ} {old : Server} (hget : w.servers[index]? = some old)
    (server : Server) :
    profile { w with servers := w.servers.set index server } =
      Function.update (profile w) index (server.generation.phase, server.downloadBegan) := by
  funext i
  simp only [profile, List.getElem?_set, Function.update_apply]
  have hlt := (List.getElem?_eq_some_iff.mp hget).1
  by_cases hi : index = i
  · subst hi
    simp only [if_true, hlt]
  · simp only [hi, Ne.symm hi, if_false]

theorem profile_startServer {call : StartCall} {event : StartEvent}
    {p : Progress StartCall (Except StartError ℕ)}
    (hs : startServer w call event = some (w', p)) : profile w' = profile w := by
  cases call <;> cases event <;> simp only [startServer, reduceCtorEq] at hs
  case allowed.proceed late =>
    cases hslot : w.slot with
    | none =>
      rw [hslot] at hs
      cases hs
      exact profile_spawn w late
    | some index =>
      rw [hslot] at hs
      cases hs
      rfl
  all_goals first
    | (split_ifs at hs <;> cases hs <;> rfl)
    | (cases hs; rfl)

theorem profile_retire (w : World) (clean : Bool) : profile (retire w clean) = profile w := by
  cases clean <;> rfl

theorem profile_stopServer {call : StopCall} {event : StopEvent} {p : Progress StopCall Bool}
    (hs : stopServer w call event = some (w', p)) : profile w' = profile w := by
  cases call with
  | locking =>
    cases event <;> simp only [stopServer, reduceCtorEq] at hs
    split_ifs at hs
    cases hslot : w.slot with
    | none =>
      rw [hslot] at hs
      cases hs
      rfl
    | some index =>
      rw [hslot] at hs
      cases hs
      exact profile_modify w index fun _ => ⟨rfl, rfl⟩
  | draining index =>
    cases event with
    | proceed =>
      obtain ⟨server, -, hs⟩ := Option.bind_eq_some_iff.mp hs
      split_ifs at hs
      cases hs
      exact profile_retire w _
    | timesOut =>
      cases hs
      exact profile_modify w index fun _ => ⟨rfl, rfl⟩
  | aborting index =>
    cases event <;> simp only [stopServer, reduceCtorEq] at hs
    obtain ⟨server, -, hs⟩ := Option.bind_eq_some_iff.mp hs
    split_ifs at hs
    cases hs
    exact profile_retire w false

theorem profile_apply (w : World) (effect : Effect) : profile (w.apply effect) = profile w := by
  cases effect <;> rfl

theorem profile_release (w : World) (activity : Activity) :
    profile (w.release activity) = profile w := by
  simp only [World.release]
  split_ifs <;> rfl

end Profiles

/-! ## What every step keeps -/

/-- What the refresh owes to the commands, wherever the watcher stands. -/
def Covered (s : State) : Prop :=
  match s.watcher with
  | .absent | .listening => Fresh s ∨ s.doCertRefresh = true ∧ s.permit = true
  | .waiting => Fresh s
  | .woken => Fresh s ∨ s.doCertRefresh = true
  | .starting (.awaitingReady index) =>
    s.doCertRefresh = true ∧ ∀ d, downloads s.world index = some d → Ahead s d
  | .restarted index | .resuming index =>
    s.doCertRefresh = true ∧ ∃ d, downloads s.world index = some d ∧ Ahead s d
  | .ended => True
  | _ => s.doCertRefresh = true

structure Inv (s : State) : Prop where
  handled : ∀ h, s.lastHandled = some h → h < s.clock
  pending : s.pending ≠ 0 → s.doCertRefresh = true
  /-- A server is ready after its download. -/
  ready : ∀ index, (profile s.world index).1 ≠ .starting → (downloads s.world index).isSome
  covered : Covered s

section Steps

variable {s next : State}

theorem inv_initial : Inv State.initial := ⟨nofun, nofun, nofun, .inl nofun⟩

/-- Only the main task or the world moves, and the servers keep their profiles. -/
theorem Inv.frame (h : Inv s) (world : World) (main : Main)
    (hprofile : profile world = profile s.world) : Inv { s with world, main } where
  handled := h.handled
  pending := h.pending
  ready index := by
    simp only [downloads, hprofile]
    exact h.ready index
  covered := by
    have hcovered := h.covered
    simp only [Covered, downloads, hprofile] at hcovered ⊢
    exact hcovered

theorem Inv.mainStep (h : Inv s) {event : MainEvent} (hstep : mainStep s event = some next) :
    Inv next := by
  cases event with
  | begin =>
    simp only [ServerGenerations.mainStep, Option.ite_none_right_eq_some] at hstep
    obtain ⟨-, hnext⟩ := hstep
    cases hnext
    exact h.frame s.world _ rfl
  | startCall event =>
    cases hmain : s.main with
    | starting call =>
      simp only [ServerGenerations.mainStep, hmain] at hstep
      obtain ⟨⟨world, p⟩, hs, rfl⟩ := Option.map_eq_some_iff.mp hstep
      have hprofile := profile_startServer hs
      cases p with
      | more call => exact h.frame world _ hprofile
      | returned outcome =>
        cases outcome with
        | ok index => exact h.frame world _ hprofile
        | error e => exact h.frame world.fail _ hprofile
    | _ => simp [ServerGenerations.mainStep, hmain] at hstep
  | startupCompletes =>
    simp only [ServerGenerations.mainStep, Option.ite_none_right_eq_some] at hstep
    obtain ⟨⟨-, hwatcher⟩, hnext⟩ := hstep
    cases hnext
    have hcovered := h.covered
    rw [Covered, hwatcher] at hcovered
    exact ⟨h.handled, h.pending, h.ready, hcovered⟩
  | operationEnds =>
    simp only [ServerGenerations.mainStep, Option.ite_none_right_eq_some] at hstep
    obtain ⟨-, hnext⟩ := hstep
    cases hnext
    exact h.frame (s.world.release s.main.activity).fail _ (profile_release s.world s.main.activity)
  | finalStop =>
    simp only [ServerGenerations.mainStep, Option.ite_none_right_eq_some] at hstep
    obtain ⟨-, hnext⟩ := hstep
    cases hnext
    exact h.frame (s.world.allow false) _ rfl
  | stopCall event =>
    cases hmain : s.main with
    | stopping call =>
      simp only [ServerGenerations.mainStep, hmain] at hstep
      obtain ⟨⟨world, p⟩, hs, rfl⟩ := Option.map_eq_some_iff.mp hstep
      have hprofile := profile_stopServer hs
      cases p with
      | more call => exact h.frame world _ hprofile
      | returned clean => exact h.frame world _ hprofile
    | _ => simp [ServerGenerations.mainStep, hmain] at hstep

/-- The watcher moves on, and the servers keep their profiles. -/
theorem Inv.watcherBecomes (h : Inv s) (world : World) (watcher : Watcher) (permit : Bool)
    (hprofile : profile world = profile s.world)
    (hcovered : Covered { s with world, watcher, permit }) : Inv { s with world, watcher, permit } where
  handled := h.handled
  pending := h.pending
  ready index := by
    simp only [downloads, hprofile]
    exact h.ready index
  covered := hcovered

theorem Inv.watcherProceeds (h : Inv s) (hstep : watcherStep s .proceed = some next) : Inv next := by
  have hcovered := h.covered
  cases hwatcher : s.watcher with
  | listening =>
    simp only [ServerGenerations.watcherStep, hwatcher] at hstep
    simp only [Covered, hwatcher] at hcovered
    split_ifs at hstep with hpermit
    · cases hstep
      exact h.watcherBecomes s.world _ false rfl (hcovered.imp_right And.left)
    · cases hstep
      have hfresh : Fresh s := hcovered.resolve_right fun hstored => hpermit hstored.2
      exact h.watcherBecomes s.world _ s.permit rfl hfresh
  | woken =>
    simp only [ServerGenerations.watcherStep, hwatcher] at hstep
    simp only [Covered, hwatcher] at hcovered
    cases hstep
    by_cases hflag : s.doCertRefresh = true
    · rw [if_pos hflag]
      exact h.watcherBecomes s.world .suspending s.permit rfl hflag
    · rw [if_neg hflag]
      exact h.watcherBecomes s.world .listening s.permit rfl (.inl (hcovered.resolve_right hflag))
  | retrying =>
    simp only [ServerGenerations.watcherStep, hwatcher] at hstep
    simp only [Covered, hwatcher] at hcovered
    cases hstep
    exact h.watcherBecomes s.world _ true rfl (.inr ⟨hcovered, rfl⟩)
  | delaying =>
    simp only [ServerGenerations.watcherStep, hwatcher] at hstep
    simp only [Covered, hwatcher] at hcovered
    cases hstep
    exact h.watcherBecomes (s.world.allow false) _ s.permit rfl hcovered
  | pausing =>
    simp only [ServerGenerations.watcherStep, hwatcher] at hstep
    simp only [Covered, hwatcher] at hcovered
    cases hstep
    exact h.watcherBecomes s.world _ s.permit rfl hcovered
  | restarted index =>
    simp only [ServerGenerations.watcherStep, hwatcher] at hstep
    simp only [Covered, hwatcher] at hcovered
    split_ifs at hstep
    · cases hstep
      exact h.watcherBecomes s.world _ s.permit rfl trivial
    · cases hstep
      exact h.watcherBecomes (s.world.allow true) _ s.permit rfl hcovered
  | _ => simp [ServerGenerations.watcherStep, hwatcher] at hstep

theorem downloads_length (w : World) : downloads w w.servers.length = none := by
  simp [downloads, profile]

theorem Inv.watcherStarts (h : Inv s) {call : StartCall} (hwatcher : s.watcher = .starting call)
    {event : StartEvent} {world : World} {p : Progress StartCall (Except StartError ℕ)}
    (hs : startServer s.world call event = some (world, p)) : Inv (watcherStart s (world, p)) := by
  have hprofile := profile_startServer hs
  have hcovered := h.covered
  simp only [Covered, hwatcher] at hcovered
  cases p with
  | more call' =>
    refine h.watcherBecomes world _ s.permit hprofile ?_
    cases call <;> cases event <;> simp only [startServer, reduceCtorEq] at hs
    case locking.proceed late =>
      split_ifs at hs
      cases hs
      exact hcovered
    case locked.proceed late =>
      split_ifs at hs
      · cases hs
      · cases hs
        exact hcovered
    case allowed.proceed late =>
      cases hslot : s.world.slot with
      | none =>
        rw [hslot] at hs
        cases hs
        refine ⟨hcovered, fun d hd => ?_⟩
        simp only [downloads, profile_spawn] at hd
        exact absurd hd (by rw [← downloads, downloads_length]; simp)
      | some index =>
        rw [hslot] at hs
        cases hs
    all_goals first
      | (split_ifs at hs <;> cases hs)
      | cases hs
  | returned outcome =>
    cases outcome with
    | ok index =>
      refine h.watcherBecomes world _ s.permit hprofile ?_
      cases call <;> cases event <;> simp only [startServer, reduceCtorEq] at hs
      case awaitingReady.ready index =>
        split_ifs at hs with hready
        cases hs
        rw [isReady_eq] at hready
        obtain ⟨d, hd⟩ := Option.isSome_iff_exists.mp (h.ready index (by simpa using hready))
        exact ⟨hcovered.1, d, hd, hcovered.2 d hd⟩
      all_goals first
        | (split_ifs at hs <;> cases hs)
        | (cases hslot : s.world.slot <;> rw [hslot] at hs <;> cases hs)
        | cases hs
    | error e =>
      cases e with
      | shutdown => exact h.watcherBecomes world _ s.permit hprofile trivial
      | alreadyRunning => exact h.watcherBecomes world.fail _ s.permit hprofile trivial
      | notReady => exact h.watcherBecomes world.fail _ s.permit hprofile trivial

theorem Inv.watcherStep (h : Inv s) {event : WatcherEvent} (hstep : watcherStep s event = some next) :
    Inv next := by
  have hcovered := h.covered
  cases event with
  | proceed => exact h.watcherProceeds hstep
  | suspended ok =>
    simp only [ServerGenerations.watcherStep, Option.ite_none_right_eq_some] at hstep
    obtain ⟨hwatcher, hnext⟩ := hstep
    simp only [Covered, hwatcher] at hcovered
    cases hnext
    cases ok with
    | true => exact h.watcherBecomes s.world .delaying s.permit rfl hcovered
    | false => exact h.watcherBecomes s.world .retrying s.permit rfl hcovered
  | stopCall event =>
    cases hwatcher : s.watcher with
    | stopping call =>
      simp only [ServerGenerations.watcherStep, hwatcher] at hstep
      simp only [Covered, hwatcher] at hcovered
      obtain ⟨⟨world, p⟩, hs, rfl⟩ := Option.map_eq_some_iff.mp hstep
      have hprofile := profile_stopServer hs
      cases p with
      | more call => exact h.watcherBecomes world _ s.permit hprofile hcovered
      | returned clean =>
        cases clean with
        | true => exact h.watcherBecomes world _ s.permit hprofile hcovered
        | false => exact h.watcherBecomes world.fail _ s.permit hprofile trivial
    | _ => simp [ServerGenerations.watcherStep, hwatcher] at hstep
  | startCall event =>
    cases hwatcher : s.watcher with
    | starting call =>
      simp only [ServerGenerations.watcherStep, hwatcher] at hstep
      obtain ⟨⟨world, p⟩, hs, rfl⟩ := Option.map_eq_some_iff.mp hstep
      exact h.watcherStarts hwatcher hs
    | _ => simp [ServerGenerations.watcherStep, hwatcher] at hstep
  | resumed fatal =>
    cases hwatcher : s.watcher with
    | resuming index =>
      simp only [ServerGenerations.watcherStep, hwatcher] at hstep
      simp only [Covered, hwatcher] at hcovered
      split_ifs at hstep
      · cases hstep
        exact h.watcherBecomes s.world.fail _ s.permit rfl trivial
      · cases hstep
        obtain ⟨-, d, hd, hpending, hbefore⟩ := hcovered
        refine ⟨h.handled, fun hne => absurd hpending hne, h.ready, .inl fun t ht => ⟨d, ?_, hbefore t ht⟩⟩
        exact (bind_downloadBegan s.world index).trans hd
    | _ => simp [ServerGenerations.watcherStep, hwatcher] at hstep
  | dropped =>
    simp only [ServerGenerations.watcherStep, Option.ite_none_right_eq_some] at hstep
    obtain ⟨-, hnext⟩ := hstep
    cases hnext
    exact h.watcherBecomes (s.world.release s.watcher.activity) _ s.permit
      (profile_release s.world s.watcher.activity) trivial

theorem Inv.serverStep (h : Inv s) {index : ℕ} {event : ServerEvent}
    (hstep : serverStep s index event = some next) : Inv next := by
  obtain ⟨server, hget, hstep⟩ := Option.bind_eq_some_iff.mp hstep
  rw [Option.ite_none_left_eq_some] at hstep
  obtain ⟨hguard, hstep⟩ := hstep
  obtain ⟨⟨generation, effect⟩, hgeneration, rfl⟩ := Option.map_eq_some_iff.mp hstep
  have hold : profile s.world index = (server.generation.phase, server.downloadBegan) := by
    rw [profile, hget]
  have hprofile := (profile_apply _ effect).trans (profile_set s.world hget { server with generation })
  have hdownloads : downloads ({ s.world with
      servers := s.world.servers.set index { server with generation } }.apply effect) =
      downloads s.world := by
    funext i
    simp only [downloads, hprofile, Function.update_apply]
    split_ifs with hi
    · rw [hi, hold]
    · rfl
  refine ⟨h.handled, h.pending, fun i hi => ?_, ?_⟩
  · rw [hdownloads]
    rw [hprofile, Function.update_apply] at hi
    split_ifs at hi with heq
    · subst heq
      rcases Generation.phase_of_step hgeneration hi with rfl | hphase
      · rw [downloads, hold]
        exact Option.isSome_iff_ne_none.mpr fun hnone => hguard ⟨rfl, hnone⟩
      · exact h.ready i (by rw [hold]; exact hphase)
    · exact h.ready i hi
  · have hcovered := h.covered
    simp only [Covered, hdownloads] at hcovered ⊢
    exact hcovered

theorem Inv.beginDownload (h : Inv s) {index : ℕ}
    (hquiet : started s.watcher = some index → s.pending = 0)
    (hstep : beginDownload s index = some next) : Inv next := by
  obtain ⟨server, hget, hstep⟩ := Option.bind_eq_some_iff.mp hstep
  rw [Option.ite_none_right_eq_some] at hstep
  obtain ⟨⟨-, hphase, hnone⟩, hnext⟩ := hstep
  cases hnext
  have hprofile := profile_set s.world hget { server with downloadBegan := some s.clock }
  have hold : downloads s.world index = none := by
    rw [downloads, profile, hget]
    exact hnone
  have hdownloads : downloads { s.world with
      servers := s.world.servers.set index { server with downloadBegan := some s.clock } } =
      Function.update (downloads s.world) index (some s.clock) := by
    funext i
    simp only [downloads, hprofile, Function.update_apply]
    split_ifs <;> rfl
  refine ⟨fun t ht => Nat.lt_succ_of_lt (h.handled t ht), h.pending, fun i hi => ?_, ?_⟩
  · simp only [hdownloads, hprofile, Function.update_apply] at hi ⊢
    split_ifs at hi ⊢ with heq
    · rfl
    · exact h.ready i hi
  · have hcovered := h.covered
    have hsome : ∀ i d, downloads s.world i = some d →
        Function.update (downloads s.world) index (some s.clock) i = some d := by
      intro i d hd
      rw [Function.update_of_ne, hd]
      rintro rfl
      rw [hold] at hd
      cases hd
    cases hwatcher : s.watcher with
    | starting call =>
      simp only [Covered, hwatcher] at hcovered ⊢
      cases call with
      | awaitingReady i =>
        refine ⟨hcovered.1, fun d hd => ?_⟩
        rw [hdownloads, Function.update_apply] at hd
        split_ifs at hd with hi
        · cases hd
          exact ⟨hquiet (by rw [hwatcher, started, hi]), h.handled⟩
        · exact hcovered.2 d hd
      | _ => exact hcovered
    | restarted i =>
      simp only [Covered, hwatcher, hdownloads] at hcovered ⊢
      obtain ⟨hflag, d, hd, hahead⟩ := hcovered
      exact ⟨hflag, d, hsome i d hd, hahead⟩
    | resuming i =>
      simp only [Covered, hwatcher, hdownloads] at hcovered ⊢
      obtain ⟨hflag, d, hd, hahead⟩ := hcovered
      exact ⟨hflag, d, hsome i d hd, hahead⟩
    | ended => trivial
    | _ =>
      simp only [Covered, hwatcher] at hcovered ⊢
      exact hcovered

/-- The flag is set again, and no refresh is past its download. -/
theorem Inv.commandSets (h : Inv s) (hquiet : renewing s = false) :
    Inv { s with doCertRefresh := true, pending := s.pending + 1 } := by
  refine ⟨h.handled, fun _ => rfl, h.ready, ?_⟩
  have hcovered := h.covered
  cases hwatcher : s.watcher with
  | absent =>
    simp only [Covered, hwatcher] at hcovered
    exact hcovered.imp_right fun hstored => ⟨rfl, hstored.2⟩
  | listening =>
    simp only [Covered, hwatcher] at hcovered
    exact hcovered.imp_right fun hstored => ⟨rfl, hstored.2⟩
  | waiting =>
    simp only [Covered, hwatcher] at hcovered ⊢
    exact hcovered
  | woken => exact .inr rfl
  | starting call =>
    cases call with
    | awaitingReady index =>
      refine ⟨rfl, fun d hd => ?_⟩
      have hd : downloads s.world index = some d := hd
      simp [renewing, hwatcher, started, hd] at hquiet
    | _ => exact rfl
  | restarted index =>
    simp only [Covered, hwatcher] at hcovered
    obtain ⟨-, d, hd, -⟩ := hcovered
    simp [renewing, hwatcher, started, hd] at hquiet
  | resuming index =>
    simp only [Covered, hwatcher] at hcovered
    obtain ⟨-, d, hd, -⟩ := hcovered
    simp [renewing, hwatcher, started, hd] at hquiet
  | ended => trivial
  | _ => exact rfl

theorem Inv.commandNotifies (h : Inv s) (hstep : step s .commandNotifies = some next) : Inv next := by
  simp only [step, Option.ite_none_left_eq_some] at hstep
  obtain ⟨hpending, hnext⟩ := hstep
  have hflag := h.pending hpending
  have hcovered := h.covered
  cases hnext
  by_cases hwaiting : s.watcher = .waiting
  · simp only [notifyOne, hwaiting, if_true]
    refine ⟨fun t ht => ?_, fun _ => hflag, h.ready, .inr hflag⟩
    cases ht
    exact Nat.lt_succ_self _
  · simp only [notifyOne, hwaiting, if_false]
    refine ⟨fun t ht => ?_, fun _ => hflag, h.ready, ?_⟩
    · cases ht
      exact Nat.lt_succ_self _
    · cases hwatcher : s.watcher with
      | absent => exact .inr ⟨hflag, rfl⟩
      | listening => exact .inr ⟨hflag, rfl⟩
      | waiting => exact absurd hwatcher hwaiting
      | woken => exact .inr hflag
      | starting call =>
        simp only [Covered, hwatcher] at hcovered ⊢
        cases call with
        | awaitingReady index => exact ⟨hflag, fun d hd => absurd (hcovered.2 d hd).1 hpending⟩
        | _ => exact hflag
      | restarted index =>
        simp only [Covered, hwatcher] at hcovered
        obtain ⟨-, d, -, hnone, -⟩ := hcovered
        exact absurd hnone hpending
      | resuming index =>
        simp only [Covered, hwatcher] at hcovered
        obtain ⟨-, d, -, hnone, -⟩ := hcovered
        exact absurd hnone hpending
      | ended => trivial
      | _ => exact hflag

theorem Inv.step (h : Inv s) {event : Event} (hquiet : Undisturbed s event)
    (hstep : step s event = some next) : Inv next := by
  cases event with
  | shutdownRequested =>
    cases hstep
    exact h.frame s.world.fail s.main rfl
  | main event => exact h.mainStep hstep
  | watcher event => exact h.watcherStep hstep
  | downloadBegins index => exact h.beginDownload hquiet hstep
  | server index event => exact h.serverStep hstep
  | commandSets =>
    cases hstep
    exact h.commandSets hquiet
  | commandNotifies => exact h.commandNotifies hstep

end Steps

/-! ## Runs -/

/-- Where the watcher waits with no permit stored, the last completed refresh began its download
after the last command, if no command is handled between a refresh's download and its end. -/
theorem refresh_follows_command (events : List Event) (s : State)
    (hquiet : AllSteps step Undisturbed State.initial events)
    (hrun : run step State.initial events = some s) (hwaiting : s.watcher = .waiting)
    (_hpermit : s.permit = false) (_hshutdown : s.world.shutdown = false) (handled : ℕ)
    (hhandled : s.lastHandled = some handled) : ∃ began, s.lastRefresh = some began ∧ handled < began := by
  have hinv : Inv s := run_invariant (fun _ _ _ h hc hs => h.step hc hs) inv_initial hquiet hrun
  have hcovered := hinv.covered
  simp only [Covered, hwaiting] at hcovered
  exact hcovered handled hhandled

/-- The second server gets ready and the watcher tells the server side. -/
def restart : List Event :=
  exchange ++ [.downloadBegins 1, .server 1 .ready, .watcher (.startCall .ready), .watcher .proceed]

/-- The refresh ends and the watcher waits again. -/
def completedRefresh : List Event := restart ++ [.watcher (.resumed false), .watcher .proceed]

theorem refresh_follows_command_of_completedRefresh :
    ∃ s, run step State.initial completedRefresh = some s ∧ s.watcher = .waiting ∧
      s.lastHandled = some 1 ∧ ∃ began, s.lastRefresh = some began ∧ 1 < began := by
  have hquiet : AllSteps step Undisturbed State.initial completedRefresh := by decide +kernel
  have hrun : (run step State.initial completedRefresh).map
      (fun s => (s.watcher, s.permit, s.world.shutdown, s.lastHandled)) =
        some (.waiting, false, false, some 1) := by decide +kernel
  obtain ⟨s, hs, heq⟩ := Option.map_eq_some_iff.mp hrun
  simp only [Prod.mk.injEq] at heq
  obtain ⟨hwaiting, hpermit, hshutdown, hhandled⟩ := heq
  exact ⟨s, hs, hwaiting, hhandled, refresh_follows_command completedRefresh s hquiet hs hwaiting hpermit
    hshutdown 1 hhandled⟩

/-- A second command is handled while the watcher waits for the answer to its notification. -/
def lostCommand : List Event :=
  restart ++ [.commandSets, .commandNotifies, .watcher (.resumed false), .watcher .proceed,
    .watcher .proceed, .watcher .proceed]

/-- The watcher waits for a command, and the download of its last refresh began before the last one. -/
theorem lostCommand_precedes :
    ∃ s, run step State.initial lostCommand = some s ∧ s.watcher = .waiting ∧ s.permit = false ∧
      s.world.shutdown = false ∧ s.lastHandled = some 3 ∧ s.lastRefresh = some 2 := by
  have hrun : (run step State.initial lostCommand).map
      (fun s => (s.watcher, s.permit, s.world.shutdown, s.lastHandled, s.lastRefresh)) =
        some (.waiting, false, false, some 3, some 2) := by decide +kernel
  obtain ⟨s, hs, heq⟩ := Option.map_eq_some_iff.mp hrun
  simp only [Prod.mk.injEq] at heq
  exact ⟨s, hs, heq⟩

end HathRs.CertRefresh
