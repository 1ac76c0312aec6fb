import SchemaLex.Proofs.Journal

/-!
# Runs of the shared logger

A program acts on the shared logger by installing services and by logging, in any order
(`Hub.Action`).  What one action does is said once for each of the three situations that there are:

* no service is installed and the action installs none (`perform_of_silent`),
* no service is installed and the action installs one (`perform_of_first`),
* a service is installed (`perform_of_installed`, and `perform_of_refused` for a further attempt).

By induction the same holds of whole runs, and `Hub.run_of_first_install` puts a run from the
beginning together from the part before the first installation, that installation, and the rest.
-/

namespace SchemaLex

/-- The level that is asked about is the level of the event, so the second test never fails after
the first. -/
theorem Call.level_event (c : Call) : c.event.level = c.level := by
  cases c <;> exact congrArg Event.level (Event.withEntries_frame _ _)

namespace Hub

/-- What a program does with the shared logger. -/
inductive Action where
  | start (preferences : LoggingPreferences)
  | install (service : Service)
  | log (call : Call)
  | reportError (code : Code) (message : String)
deriving DecidableEq, Repr

/-- What an action answers: the result of an installation, or what was printed without a service. -/
inductive Outcome where
  | installed
  | refused (error : InstallError)
  | done (output : Output)
deriving DecidableEq, Repr

/-- The answer to an attempt to install a service, with the logger after it. -/
def attempt (h : Hub) : Except InstallError Hub → Outcome × Hub
  | .ok after => (.installed, after)
  | .error error => (.refused error, h)

def perform (h : Hub) : Action → Outcome × Hub
  | .start preferences => h.attempt (h.start preferences)
  | .install service => h.attempt (h.install service)
  | .log call => (.done {}, h.call call)
  | .reportError code message =>
    let (after, output) := h.reportError code message
    (.done output, after)

/-- The logger after a run of actions. -/
def run (h : Hub) (actions : List Action) : Hub :=
  actions.foldl (fun h action ↦ (h.perform action).2) h

/-- The events that reached a sink between two states of the logger, with the sink's service. -/
def delivered (before after : Hub) : List (Service × Event) :=
  match after.service with
  | none => []
  | some service => (after.received.drop before.received.length).map (service, ·)

/-- The events that reach a sink in the course of a run. -/
def deliveries (h : Hub) : List Action → List (Service × Event)
  | [] => []
  | action :: actions =>
    h.delivered (h.perform action).2 ++ (h.perform action).2.deliveries actions

namespace Action

/-- The service that an action tries to install. -/
def service? : Action → Option Service
  | start preferences => some (.ofPreferences preferences)
  | install service => some service
  | _ => none

/-- The event by which an installation announces itself. -/
def announced : Action → List Event
  | start preferences => [(announcement preferences).event]
  | _ => []

/-- The event that an action logs, apart from announcements. -/
def emitted : Action → List Event
  | log call => [call.event]
  | reportError code message => [.error code message]
  | _ => []

end Action

/-- The events that pass the gate of a service. -/
def passing (service : Service) (events : List Event) : List Event :=
  events.filter (·.level.rank ≤ service.minLevel.rank)

theorem passing_append (service : Service) (events later : List Event) :
    passing service (events ++ later) = passing service events ++ passing service later :=
  List.filter_append events later

/-! ## One action -/

theorem emit_of_installed {h : Hub} {service : Service} (hs : h.service = some service)
    (e : Event) :
    h.emit e =
      { service := some service, received := h.received ++ passing service [e] } := by
  rw [emit, hs]
  by_cases hpass : e.level.rank ≤ service.minLevel.rank <;>
    simp [Service.log, Service.shouldLog, passing, hpass]

/-- The two tests of the level come to one. -/
theorem call_eq_emit (h : Hub) (c : Call) : h.call c = h.emit c.event := by
  rw [call]
  split
  · rfl
  · rename_i hoff
    rw [enabled] at hoff
    rw [emit]
    cases hs : h.service with
    | none => rfl
    | some service =>
      rw [hs, Option.any_some] at hoff
      change h = { service := some service, received := service.log h.received c.event }
      rw [Service.log, Call.level_event, if_neg hoff, ← hs]

theorem perform_of_silent {h : Hub} (hs : h.service = none) {action : Action}
    (ha : action.service? = none) : (h.perform action).2 = h := by
  cases action with
  | start _ | install _ => cases ha
  | log call =>
    change h.call call = h
    rw [call_eq_emit, emit, hs]
  | reportError code message =>
    change (h.reportError code message).1 = h
    rw [reportError, hs]

theorem perform_of_first {h : Hub} (hs : h.service = none) {action : Action} {service : Service}
    (ha : action.service? = some service) :
    h.perform action = (.installed,
      { service := some service, received := h.received ++ passing service action.announced }) := by
  cases action with
  | start preferences =>
    cases ha
    have hstart : h.start preferences =
        .ok (Hub.call { h with service := some (.ofPreferences preferences) }
          (announcement preferences)) := by
      rw [start, install, hs]
      rfl
    rw [perform, hstart, call_eq_emit, emit_of_installed rfl]
    rfl
  | install service =>
    cases ha
    rw [perform, install, hs]
    exact congrArg (fun received ↦ (Outcome.installed, Hub.mk (some service) received))
      (List.append_nil _).symm
  | log _ | reportError _ _ => cases ha

theorem perform_of_refused {h : Hub} {first : Service} (hs : h.service = some first)
    {action : Action} {service : Service} (ha : action.service? = some service) :
    h.perform action = (.refused .alreadyInstalled, h) := by
  cases action with
  | start preferences =>
    rw [perform, start, install, hs]
    rfl
  | install service =>
    rw [perform, install, hs]
    rfl
  | log _ | reportError _ _ => cases ha

theorem perform_of_installed {h : Hub} {service : Service} (hs : h.service = some service)
    (action : Action) :
    (h.perform action).2 =
      { service := some service, received := h.received ++ passing service action.emitted } := by
  cases action with
  | start _ | install _ =>
    rw [perform_of_refused hs rfl, ← hs]
    exact congrArg (Hub.mk h.service) (List.append_nil _).symm
  | log call =>
    change h.call call = _
    rw [call_eq_emit, emit_of_installed hs]
    rfl
  | reportError code message =>
    have hreport : h.reportError code message = (h.emit (.error code message), {}) := by
      rw [reportError, hs]
    rw [perform, hreport]
    exact emit_of_installed hs _

/-! ## Runs -/

theorem run_append (h : Hub) (actions later : List Action) :
    h.run (actions ++ later) = (h.run actions).run later := List.foldl_append

theorem deliveries_append (h : Hub) (actions later : List Action) :
    h.deliveries (actions ++ later) = h.deliveries actions ++ (h.run actions).deliveries later := by
  induction actions generalizing h with
  | nil => rfl
  | cons action actions ih =>
    rw [List.cons_append, deliveries, deliveries, ih, List.append_assoc]
    rfl

theorem run_of_silent {h : Hub} (hs : h.service = none) {actions : List Action}
    (hactions : ∀ action ∈ actions, action.service? = none) :
    h.run actions = h ∧ h.deliveries actions = [] := by
  induction actions with
  | nil => exact ⟨rfl, rfl⟩
  | cons action actions ih =>
    obtain ⟨ha, hrest⟩ := List.forall_mem_cons.mp hactions
    obtain ⟨hrun, hdeliveries⟩ := ih hrest
    have hstep := perform_of_silent hs ha
    constructor
    · rw [run, List.foldl_cons, hstep]
      exact hrun
    · rw [deliveries, hstep, hdeliveries, delivered, hs]
      rfl

theorem delivered_of_received (h : Hub) (service : Service) (events : List Event) :
    h.delivered { service := some service, received := h.received ++ events } =
      events.map (service, ·) := by
  rw [delivered, List.drop_left]

theorem run_of_installed {h : Hub} {service : Service} (hs : h.service = some service)
    (actions : List Action) :
    let heard := passing service (actions.flatMap Action.emitted)
    h.run actions = { service := some service, received := h.received ++ heard } ∧
      h.deliveries actions = heard.map (service, ·) := by
  induction actions generalizing h with
  | nil =>
    constructor
    · rw [← hs]
      exact congrArg (Hub.mk h.service) (List.append_nil _).symm
    · rfl
  | cons action actions ih =>
    have hstep := perform_of_installed hs action
    obtain ⟨hrun, hdeliveries⟩ := ih (h := (h.perform action).2) (by rw [hstep])
    rw [List.flatMap_cons, passing_append]
    constructor
    · rw [run, List.foldl_cons]
      refine hrun.trans ?_
      rw [hstep, List.append_assoc]
    · rw [deliveries, hdeliveries, hstep, delivered_of_received, List.map_append]

/-- What a run does that installs a service where there was none. -/
theorem run_of_first {h : Hub} (hs : h.service = none) {before : List Action} {first : Action}
    {service : Service} (hbefore : ∀ action ∈ before, action.service? = none)
    (hfirst : first.service? = some service) (later : List Action) :
    let heard := passing service (first.announced ++ later.flatMap Action.emitted)
    h.run (before ++ first :: later) =
        { service := some service, received := h.received ++ heard } ∧
      h.deliveries (before ++ first :: later) = heard.map (service, ·) := by
  obtain ⟨hrun, hdeliveries⟩ := run_of_silent hs hbefore
  have hstep : (h.perform first).2 =
      { service := some service, received := h.received ++ passing service first.announced } :=
    congrArg Prod.snd (perform_of_first hs hfirst)
  obtain ⟨hrunLater, hdeliveriesLater⟩ :=
    run_of_installed (h := (h.perform first).2) (by rw [hstep]) later
  rw [passing_append]
  constructor
  · rw [run_append, hrun, run, List.foldl_cons]
    refine hrunLater.trans ?_
    rw [hstep, List.append_assoc]
  · rw [deliveries_append, hrun, hdeliveries, deliveries, hdeliveriesLater, hstep,
      delivered_of_received, List.map_append]
    rfl

theorem exists_first (actions : List Action) :
    (∀ action ∈ actions, action.service? = none) ∨
      ∃ before first later service, actions = before ++ first :: later ∧
        (∀ action ∈ before, action.service? = none) ∧ first.service? = some service := by
  cases hfind : actions.find? (·.service?.isSome) with
  | none =>
    left
    intro action hmem
    simpa using List.find?_eq_none.mp hfind action hmem
  | some first =>
    obtain ⟨hfirst, before, later, hactions, hbefore⟩ := List.find?_eq_some_iff_append.mp hfind
    obtain ⟨service, hservice⟩ := Option.isSome_iff_exists.mp hfirst
    refine .inr ⟨before, first, later, service, hactions, ?_, hservice⟩
    intro action hmem
    simpa using hbefore action hmem

theorem InstallError.message_names (error : InstallError) :
    "ERR002".toList <:+: error.message.toList := by
  cases error
  exact ⟨"[".toList, "] Global logger already initialized".toList, by decide⟩

/-- Of the attempts to install a service the first one succeeds and any other changes nothing. -/
theorem perform_of_service? (before : List Action) {action : Action} {service : Service}
    (ha : action.service? = some service) :
    let h := run {} before
    ((h.perform action).1 = .installed ↔ ∀ earlier ∈ before, earlier.service? = none) ∧
      ((h.perform action).1 ≠ .installed →
        ∃ error, h.perform action = (.refused error, h) ∧
          "ERR002".toList <:+: error.message.toList) := by
  rcases exists_first before with hsilent | ⟨silent, first, later, installed, rfl, hsilent, hfirst⟩
  · have hservice : (run {} before).service = none := by rw [(run_of_silent rfl hsilent).1]
    intro h
    rw [perform_of_first hservice ha]
    exact ⟨iff_of_true rfl hsilent, fun hne ↦ absurd rfl hne⟩
  · have hservice : (run {} (silent ++ first :: later)).service = some installed := by
      rw [(run_of_first rfl hsilent hfirst later).1]
    intro h
    rw [perform_of_refused hservice ha]
    refine ⟨iff_of_false nofun ?_, fun _ ↦ ⟨_, rfl, InstallError.message_names _⟩⟩
    intro hnone
    have := hnone first (List.mem_append_right _ List.mem_cons_self)
    rw [hfirst] at this
    cases this

/-- The announcement of a service has a code of its own and passes with the level `info`. -/
theorem announced_info {action : Action} {e : Event} (he : e ∈ action.announced) :
    e.level = .info ∧ e.code.name = "I004" := by
  cases action with
  | start preferences =>
    cases List.mem_singleton.mp he
    exact ⟨rfl, rfl⟩
  | _ => cases he

/-- A run from the beginning.  Of the attempts to install a service exactly the first succeeds; any
other is refused with a message that names its code, and nothing changes.  Before the first
installation nothing reaches a sink.  From then on that service receives, in order, the announcement
and what is logged, as far as its gate lets it pass, and no other service receives anything. -/
theorem run_of_first_install (actions : List Action) :
    (∀ before action later service, actions = before ++ action :: later →
        action.service? = some service →
      let h := run {} before
      ((h.perform action).1 = .installed ↔ ∀ earlier ∈ before, earlier.service? = none) ∧
        ((h.perform action).1 ≠ .installed →
          ∃ error, h.perform action = (.refused error, h) ∧
            "ERR002".toList <:+: error.message.toList)) ∧
    ((∀ action ∈ actions, action.service? = none) ∧ run {} actions = {} ∧
        deliveries {} actions = [] ∨
      ∃ before first later service, actions = before ++ first :: later ∧
        (∀ earlier ∈ before, earlier.service? = none) ∧ first.service? = some service ∧
        (∀ e ∈ first.announced, e.level = .info ∧ e.code.name = "I004") ∧
        let heard := passing service (first.announced ++ later.flatMap Action.emitted)
        run {} actions = { service := some service, received := heard } ∧
          deliveries {} actions = heard.map (service, ·)) := by
  constructor
  · intro before action later service _ ha
    exact perform_of_service? before ha
  · rcases exists_first actions with
      hsilent | ⟨before, first, later, service, rfl, hbefore, hfirst⟩
    · exact .inl ⟨hsilent, run_of_silent rfl hsilent⟩
    · exact .inr ⟨before, first, later, service, rfl, hbefore, hfirst, fun _ ↦ announced_info,
        run_of_first rfl hbefore hfirst later⟩

example :
    let actions := [.log (.error .internalError "early" []), .install ⟨.memory, .warning⟩,
      .start {}, .log (.info "minor" []), .reportError .internalError "late"]
    deliveries {} actions = [(⟨.memory, .warning⟩, .error .internalError "late")] := by decide

end Hub

end SchemaLex
