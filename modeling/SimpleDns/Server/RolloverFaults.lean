import SimpleDns.Server.RolloverRuns

/-!
# Rollovers and reads that fail

`vk_get` returns 0 both for an entry that is not there and for a read that failed, and the engine
acts on the difference: `rollover_finish` deletes the incoming keys whether or not it could read
them, `dnssec_init_key` generates a new key where it could not read the old one.

* `Survives`: an activity drops an incoming key from the store only after it became the current one,
  and where it ends a rollover the signing key stays.
* **`survives_of_serial`**: so it is as long as the reads of the keys and of the phase succeed; the
  reads of the settings, of the creation time, of the handled request and of the legacy keys may
  fail.
* **`finish_loses_keys`**: where the reads of the incoming keys fail once, at the end of a rollover,
  the keys that sign are lost.
-/

namespace SimpleDns.Server

open Lib Wire Relation

/-- **The incoming keys survive the activity.** -/
structure Survives (E : KeyEnv) (c c' : KeyRun) : Prop where
  material : ∀ a pem, E.read c.1.store (.next .zsk a) = some pem →
    E.read c'.1.store (.next .zsk a) = some pem ∨ E.read c'.1.store (.current .zsk a) = some pem
  finish : c.1.mem.zoneKeys.rollPhase = .commit → c'.1.mem.zoneKeys.rollPhase = .none →
    ∀ a k, c.1.mem.zoneKeys.signer a = some k →
      c'.1.mem.zoneKeys.signer a = some k ∧ c'.1.mem.zoneKeys.Publishes .zsk a k

variable {E : KeyEnv} {fails : KeyEntry → Prop}

/-- There is a least value a setting can read as: its own, the shared one or the default. -/
theorem exists_floor (E : KeyEnv) (fails : KeyEntry → Prop) (s : Store) (r : KeyRole) (k : Knob) :
    ∃ h : Int, ∀ v, E.CfgGives fails s r k v → h ≤ v := by
  let own := vkGet s ((KeyEntry.zoneConfig r k).key E.zone) 64
  let shared := vkGet s ((KeyEntry.config r k).key E.zone) 64
  let value (o sh : Option Text) : Int := ((filled o <|> filled sh).map atoi).getD k.default
  refine ⟨min (min (value own shared) (value own none)) (min (value none shared) (value none none)),
    ?_⟩
  rintro v ⟨o, sh, rfl | ⟨-, rfl⟩, rfl | ⟨-, rfl⟩, rfl⟩
  · exact (min_le_left _ _).trans (min_le_left _ _)
  · exact (min_le_left _ _).trans (min_le_right _ _)
  · exact (min_le_right _ _).trans (min_le_left _ _)
  · exact (min_le_right _ _).trans (min_le_right _ _)

theorem exists_floors (E : KeyEnv) (fails : KeyEntry → Prop) (s : Store) :
    ∃ h₁ h₂, Floors E fails h₁ h₂ s := by
  choose h₁ hh₁ using fun r => exists_floor E fails s r .publishHold
  choose h₂ hh₂ using fun r => exists_floor E fails s r .commitHold
  exact ⟨h₁, h₂, hh₁, hh₂⟩

/-- A step of the replacement keeps the incoming keys, or makes them the current ones. -/
theorem Quiet.survives {x y : KeyRole → Roll E.KeySet} {c c' : KeyRun} {h₁ h₂ : Int} {t : Nat}
    (hq : Quiet E x c.1) (hq' : Quiet E y c'.1) (hstep : Roll.Step h₁ h₂ t (x .zsk) (y .zsk)) :
    Survives E c c' := by
  constructor
  · intro a pem hpem
    rw [(hq.stored .zsk).next a, Option.map_eq_some_iff] at hpem
    obtain ⟨n, hn, rfl⟩ := hpem
    rcases hstep.next_kept hn with hy | ⟨-, hcur⟩
    · left
      rw [(hq'.stored .zsk).next a, hy]
      rfl
    · right
      rw [(hq'.stored .zsk).current a, hcur]
  · intro hcommit _ a k hk
    rw [hq.zoneKeys, signer_keysOf] at hk
    cases hk
    -- in the second stage the key in use does not change
    have hused : (y .zsk).used = (x .zsk).used := by
      rw [hq.zoneKeys] at hcommit
      cases hstage : (x .zsk).stage with
      | second s n => exact hstep.used_kept hstage
      | idle | first s n =>
        simp [keysOf, ZoneMem.zoneKeys, loadedMem, hstage, stagePhase, Phase.roll] at hcommit
    rw [hq'.zoneKeys, signer_keysOf, ← hused]
    exact ⟨rfl, publishes_keysOf (Roll.offered_used _) a⟩

/-- **A rollover survives the failure of every read but those of keys and phases.** -/
theorem survives_of_serial {s : KeyState} {c c' : KeyRun} {x : KeyRole → Roll E.KeySet}
    (hf : ∀ e, fails e → ¬ e.IsKey) (hq : Quiet E x s)
    (hrun : ReflTransGen (SerialStep E fails) (s, []) c) (hstep : SerialStep E fails c c') :
    Survives E c c' := by
  obtain ⟨h₁, h₂, hfloors⟩ := exists_floors E fails s.store
  have hstart : Traced E fails h₁ h₂ (s, []) x [] := ⟨hq, hfloors, rfl, fun r => .init _ _⟩
  obtain ⟨y, hist, hy⟩ := traced_of_serial hf hrun hstart
  obtain ⟨z, hist', hz, hroll⟩ := hstep.traced hf hy
  exact hy.quiet.survives hz.quiet (hroll .zsk)

/-- Every read that is not of a key or a phase. -/
def lostOthers : KeyEntry → Bool
  | .current _ _ | .next _ _ | .rollover _ => false
  | _ => true

theorem sample_survives :
    sampleDue.1.mem.zoneKeys.rollPhase = .commit ∧
      (sampleDue.tick lostOthers).1.mem.zoneKeys.rollPhase = .none ∧
        Survives sampleEnv sampleDue (sampleDue.tick lostOthers) := by
  have hf : ∀ e, (fun e : KeyEntry => ¬ e.IsKey) e → ¬ e.IsKey := fun _ h => h
  refine ⟨by decide +kernel, by decide +kernel, ?_⟩
  exact survives_of_serial hf quiet_sampleRequest serial_sampleDue
    (serial_tick (fun e h => by cases e <;> first | exact id | cases h) sampleDue)

/-- The reads of the incoming keys. -/
def lostNext : KeyEntry → Bool
  | .next _ _ => true
  | _ => false

/-- **The end of a rollover deletes keys it could not read.** The key that signs is then nowhere in
the store. -/
theorem finish_loses_keys : ∃ c c',
    ReflTransGen (SerialStep sampleEnv fun _ => True) sampleRequest c ∧
      SerialStep sampleEnv (fun _ => True) c c' ∧ ¬ Survives sampleEnv c c' := by
  refine ⟨sampleDue, sampleDue.tick lostNext, serial_sampleDue,
    serial_tick (fun _ _ => trivial) sampleDue, fun h => ?_⟩
  have hbefore : sampleEnv.read sampleDue.1.store (.next .zsk .p256) = sampleGen .p256 := by
    decide +kernel
  have hafter :
      sampleEnv.read (sampleDue.tick lostNext).1.store (.next .zsk .p256) ≠ sampleGen .p256 ∧
      sampleEnv.read (sampleDue.tick lostNext).1.store (.current .zsk .p256) ≠ sampleGen .p256 := by
    decide +kernel
  rcases h.material .p256 _ hbefore with hnext | hcur
  · exact hafter.1 hnext
  · exact hafter.2 hcur

end SimpleDns.Server
