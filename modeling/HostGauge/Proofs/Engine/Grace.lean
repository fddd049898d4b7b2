import HostGauge.Proofs.Engine.Lifecycle

/-!
The sessions that are started with settings. What is checked of the settings is enough to start a
session, but not to stop it: nothing bounds the grace period, and a stop fails exactly where the
grace period, counted from the stop, ends beyond the last moment of the clock.
-/
namespace HostGauge

theorem deadline?_eq_none_iff (now : Moment) (grace : Duration) :
    deadline? now grace = none ↔ lastMoment < now + grace.nanos := by
  unfold deadline?
  split
  case isTrue hwithin => exact iff_of_false nofun (Nat.not_lt.mpr hwithin)
  case isFalse hbeyond => exact iff_of_true rfl (Nat.not_le.mp hbeyond)

theorem Settings.pollInterval_pos {s : Settings} (h : s.validate = .ok ()) :
    0 < s.pollInterval.toNat := by
  refine Nat.pos_of_ne_zero fun hzero => ?_
  have hinterval : s.pollInterval = 0 := UInt64.toNat_inj.mp hzero
  have hproblem : s.problem? = some .zeroInterval := if_pos hinterval
  rw [Settings.validate, hproblem] at h
  cases h

namespace EngineConfig

/-- The configuration for settings without a problem. -/
def forSettings (s : Settings) : EngineConfig :=
  ⟨.ofSeconds s.pollInterval.toNat, s.computer, .ofSeconds s.shutdownGrace.toNat⟩

theorem ofSettings_eq_ok_iff (s : Settings) (config : EngineConfig) :
    ofSettings s = .ok config ↔ s.validate = .ok () ∧ config = forSettings s := by
  unfold ofSettings
  cases s.validate with
  | error problem => exact iff_of_false nofun nofun
  | ok _ => exact ⟨fun h => ⟨rfl, (Except.ok.inj h).symm⟩, fun h => congrArg Except.ok h.2.symm⟩

theorem ofSettings_eq_error_iff (s : Settings) (problem : Settings.Problem) :
    ofSettings s = .error (.invalidSettings problem) ↔ s.validate = .error problem := by
  unfold ofSettings
  cases s.validate with
  | error problem' => simp only [Except.error.injEq, EngineError.invalidSettings.injEq]
  | ok _ => exact iff_of_false nofun nofun

theorem second_le_pollInterval {s : Settings} (h : s.validate = .ok ()) :
    Duration.second ≤ (forSettings s).pollInterval.nanos :=
  Nat.le_mul_of_pos_left Duration.second (Settings.pollInterval_pos h)

end EngineConfig

namespace Lifecycle

variable {σ : Type} {src : Source σ} {history : List (Event σ)} {config : EngineConfig}
  {collector : σ} {since : List (Event σ)} {x : Controlled σ}

theorem startCall_answer (h : Run src {} history x)
    (hlong : Duration.second ≤ config.pollInterval.nanos) (collector : σ)
    (spawned : Except FileFault Unit) :
    let answer := (x.engine.startCall config collector spawned).1
    (answer = .ok () ↔ ¬ IsOpen history ∧ spawned = .ok ()) ∧
      (answer = .error .alreadyStarted ↔ IsOpen history) ∧
      ∀ cause, answer = .error (.notSpawned cause) ↔ ¬ IsOpen history ∧ spawned = .error cause := by
  intro answer
  have hstep : Step src ⟨x.engine, none⟩ (.start config collector spawned answer)
      ⟨(x.engine.startCall config collector spawned).2, none⟩ := .start _ _ _ _
  obtain ⟨-, halready, hcause, hok, -⟩ := hstep.start_answer
  simp only [ne_eq, session_eq_none_iff h, hlong, true_and, not_not] at halready hcause hok
  exact ⟨hok, halready, hcause⟩

/-- The session waits for its worker as its configuration says. -/
theorem Opened.session (hopened : Opened history config collector since)
    (h : Run src {} history x) :
    ∃ s, x.engine.session = some s ∧ s.grace = config.shutdownGrace := by
  obtain ⟨hs, -⟩ := accounts h
  cases hsession : x.engine.session with
  | none => exact absurd ⟨config, collector, since, hopened⟩ (hs.idle hsession)
  | some s =>
      obtain ⟨config', collector', since', hopened', -, hgrace⟩ := hs.going s hsession
      rw [hopened'.config_eq hopened] at hgrace
      exact ⟨s, rfl, hgrace⟩

theorem Opened.requestStop?_eq_none_iff (hopened : Opened history config collector since)
    (h : Run src {} history x) (now : Moment) :
    x.engine.requestStop? now = none ↔ lastMoment < now + config.shutdownGrace.nanos := by
  obtain ⟨s, hsession, hgrace⟩ := hopened.session h
  simp only [Engine.requestStop?, hsession, Option.map_eq_none_iff]
  rw [deadline?_eq_none_iff, hgrace]

/-- Settings give a configuration exactly if they pass their check, and are refused with the problem
that it finds. With a configuration that settings gave, a start never refuses the interval: where no
session is open, it fails only if the system has no thread for it. A stop of its session fails
exactly where the grace period ends beyond the clock: it succeeds up to some reading of the clock
exactly if the grace period, counted from that reading, ends on the clock, and with a grace period
longer than the clock it fails at every reading. -/
theorem session_of_settings (src : Source σ) (s : Settings) :
    ((∃ config, EngineConfig.ofSettings s = .ok config) ↔ s.validate = .ok ()) ∧
    (∀ problem, EngineConfig.ofSettings s = .error (.invalidSettings problem) ↔
      s.validate = .error problem) ∧
    ∀ config, EngineConfig.ofSettings s = .ok config →
      config.validate = .ok () ∧
      ∀ history x, Run src {} history x →
        (∀ collector spawned,
          let answer := (x.engine.startCall config collector spawned).1
          (answer = .ok () ↔ ¬ IsOpen history ∧ spawned = .ok ()) ∧
          (answer = .error .alreadyStarted ↔ IsOpen history) ∧
          ∀ cause, answer = .error (.notSpawned cause) ↔
            ¬ IsOpen history ∧ spawned = .error cause) ∧
        ∀ collector since, Opened history config collector since →
          (∀ now, x.engine.requestStop? now = none ↔
            lastMoment < now + s.shutdownGrace.toNat * Duration.second) ∧
          (∀ latest, (∀ now ≤ latest, x.engine.requestStop? now ≠ none) ↔
            latest + s.shutdownGrace.toNat * Duration.second ≤ lastMoment) ∧
          ((∀ now, x.engine.requestStop? now = none) ↔
            lastMoment < s.shutdownGrace.toNat * Duration.second) := by
  refine ⟨?_, EngineConfig.ofSettings_eq_error_iff s, ?_⟩
  · simp only [EngineConfig.ofSettings_eq_ok_iff, exists_and_left, exists_eq, and_true]
  · intro config hconfig
    obtain ⟨hvalid, rfl⟩ := (EngineConfig.ofSettings_eq_ok_iff s config).mp hconfig
    have hlong := EngineConfig.second_le_pollInterval hvalid
    refine ⟨EngineConfig.validate_of_le _ hlong, fun history x h => ⟨startCall_answer h hlong, ?_⟩⟩
    intro collector since hopened
    have hfails : ∀ now, x.engine.requestStop? now = none ↔
        lastMoment < now + s.shutdownGrace.toNat * Duration.second :=
      hopened.requestStop?_eq_none_iff h
    refine ⟨hfails, fun latest => ?_, ?_⟩
    · simp only [ne_eq, hfails, Nat.not_lt]
      refine ⟨fun h => h latest (Nat.le_refl latest), fun h now hnow => ?_⟩
      exact Nat.le_trans (Nat.add_le_add_right hnow _) h
    · simp only [hfails]
      refine ⟨fun h => ?_, fun h now => Nat.lt_of_lt_of_le h (Nat.le_add_left _ now)⟩
      have hzero := h 0
      rwa [Nat.zero_add] at hzero

/-- Settings with the shortest grace period that is longer than the clock. -/
def endless : Settings := { shutdownGrace := 9223372036854775808 }

/-- These settings pass their check, and a session is started with them; but at no reading of the
clock can it be stopped. -/
theorem endless_grace_fails :
    endless.validate = .ok () ∧
    ∃ config x, EngineConfig.ofSettings endless = .ok config ∧ config.validate = .ok () ∧
      Run unidentified {} [.start config 0 (.ok ()) (.ok ())] x ∧
      ∀ now, x.engine.requestStop? now = none := by
  have hvalid : endless.validate = .ok () := by decide
  have hrun : Run unidentified {} [.start (.forSettings endless) 0 (.ok ()) (.ok ())] _ :=
    .cons (.start {} (.forSettings endless) 0 (.ok ())) (.nil _)
  refine ⟨hvalid, .forSettings endless, _,
    (EngineConfig.ofSettings_eq_ok_iff _ _).mpr ⟨hvalid, rfl⟩,
    EngineConfig.validate_of_le _ (EngineConfig.second_le_pollInterval hvalid), hrun, fun now => ?_⟩
  rw [(opened_start [] (.forSettings endless) 0 (.ok ())).requestStop?_eq_none_iff hrun]
  have hgrace : lastMoment < (EngineConfig.forSettings endless).shutdownGrace.nanos := by decide
  exact Nat.lt_of_lt_of_le hgrace (Nat.le_add_left _ now)

end Lifecycle

end HostGauge
