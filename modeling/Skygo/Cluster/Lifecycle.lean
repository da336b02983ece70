import Skygo.Cluster.Registry

/-! The life of a service from `Reserve` to the end of its finalizer.

`Stop` on a reserved service finalizes it without waiting for a loop, and `Start` does not
look whether that has happened. As long as no service is started after it was stopped, a
service is unpublished only when its loop has exited or it never had one.
-/

set_option autoImplicit false

namespace Skygo.Cluster

open Semantics Actor

variable {Msg : Type} {w : World Msg} {a : WorldAction Msg} {h : Nat} {host host' : Host Msg} {svc svc' : Service}

structure Service.Orderly (svc : Service) (host : Host Msg) : Prop where
  fresh : svc.canceled = false → svc.requested = [] ∧ svc.finalizer = none
  running : svc.state = .running → svc.canceled = false
  stopping : svc.state = .stopping → svc.canceled = true
  immediate : .immediate ∈ svc.requested ∨ svc.finalizer = some .immediate → svc.mailbox = none
  unpublished : svc.published = false → svc.finalizer.isSome = true ∧
    ∀ k ∈ svc.mailbox, At host.system.mailboxes k (·.done = true)

namespace Service.Orderly

section

variable (orderly : svc.Orderly host)
include orderly

theorem grow (later : host.system.Later host'.system) : svc.Orderly host' := by
  refine ⟨orderly.fresh, orderly.running, orderly.stopping, orderly.immediate, fun gone => ?_⟩
  obtain ⟨finalized, exited⟩ := orderly.unpublished gone
  refine ⟨finalized, fun k runs => ?_⟩
  obtain ⟨m, box, done⟩ := at_iff.mp (exited k runs)
  obtain ⟨m', box', _, _, kept⟩ := later.mailboxes k m box
  exact at_iff.mpr ⟨m', box', kept done⟩

theorem adjusts (adjusts : svc.Adjusts host svc') : svc'.Orderly host := by
  cases adjusts with
  | register entry =>
    unfold Service.register
    split
    · exact ⟨orderly.fresh, orderly.running, orderly.stopping, orderly.immediate, orderly.unpublished⟩
    · exact orderly
  | beginFinalize kind requested =>
    have stopped : svc.canceled ≠ false := by
      intro fresh
      simp [(orderly.fresh fresh).1] at requested
    refine ⟨fun fresh => absurd fresh stopped, orderly.running, orderly.stopping, ?_, fun gone => ?_⟩
    · rintro (asked | finalizes)
      · exact orderly.immediate (.inl asked)
      · cases used : svc.finalizer with
        | some other =>
          simp only [Service.beginFinalize, used] at finalizes
          exact orderly.immediate (.inr (used.trans finalizes))
        | none =>
          simp only [Service.beginFinalize, used] at finalizes
          cases finalizes
          exact orderly.immediate (.inl requested)
    · obtain ⟨finalized, exited⟩ := orderly.unpublished gone
      refine ⟨?_, exited⟩
      obtain ⟨other, used⟩ := Option.isSome_iff_exists.mp finalized
      simp [Service.beginFinalize, used]
  | unpublish finalizing =>
    refine ⟨orderly.fresh, orderly.running, orderly.stopping, orderly.immediate, fun _ => ?_⟩
    rcases finalizing with now | ⟨later, k, runs, done⟩
    · refine ⟨by simp [now], fun k runs => ?_⟩
      rw [orderly.immediate (.inr now)] at runs
      cases runs
    · refine ⟨by simp [later], fun k' runs' => ?_⟩
      obtain rfl : k = k' := Option.some.inj (runs.symm.trans runs')
      exact done
  | retire => exact ⟨orderly.fresh, nofun, nofun, orderly.immediate, orderly.unpublished⟩

theorem stop (reserved : svc.state = .reserved → svc.mailbox = none) : svc.stop.Orderly host := by
  unfold Service.stop
  split
  · exact orderly
  · next state => exact ⟨nofun, by simp [state], by simp [state], fun _ => reserved state, orderly.unpublished⟩
  · refine ⟨nofun, nofun, fun _ => rfl, fun asked => orderly.immediate ?_, orderly.unpublished⟩
    simpa using asked
  · next state =>
    have stopped := orderly.stopping state
    refine ⟨by simp [stopped], by simp [state], fun _ => stopped, fun asked => orderly.immediate ?_,
      orderly.unpublished⟩
    simpa using asked

theorem published (fresh : svc.canceled = false) : svc.published = true := by
  cases listed : svc.published with
  | true => rfl
  | false =>
    have finalized := (orderly.unpublished listed).1
    simp [(orderly.fresh fresh).2] at finalized

theorem start (fresh : svc.canceled = false) (k : Nat) :
    Service.Orderly { svc with state := .running, mailbox := some k } host := by
  obtain ⟨requested, finalizer⟩ := orderly.fresh fresh
  refine ⟨fun _ => ⟨requested, finalizer⟩, fun _ => fresh, nofun, ?_, fun gone => ?_⟩
  · simp [requested, finalizer]
  · simp [orderly.published fresh] at gone

end

end Service.Orderly

def Host.Orderly (host : Host Msg) : Prop :=
  ∀ (j : Nat) (svc : Service), host.services[j]? = some svc → svc.Orderly host

/-- `a` does not start a service that was stopped before. -/
def World.StartsFresh (w : World Msg) : WorldAction Msg → Prop
  | .start h j => w.Up h fun host => At host.services j (·.canceled = false)
  | _ => True

instance (w : World Msg) (a : WorldAction Msg) : Decidable (w.StartsFresh a) := by
  rcases a with _ | _ <;> dsimp only [World.StartsFresh] <;> infer_instance

theorem Host.Orderly.moves (orderly : host.Orderly) (registered : host.Registered h) (found : w.hosts[h]? = some host)
    (fresh : w.StartsFresh a) (moves : host.Moves w a h host') : host'.Orderly := by
  have later := (registered.moves moves).2.system
  have change : ∀ {j : Nat} {svc : Service} {f : Service → Service}, host.services[j]? = some svc →
      (f svc).Orderly host → host'.services = host.services.modify j f → host'.Orderly := by
    intro j svc f there changed services i svc' there'
    rw [services] at there'
    rcases lookup_modify there' with ⟨rfl, _, was, rfl⟩ | ⟨_, was⟩
    · rw [there] at was
      cases was
      exact changed.grow later
    · exact (orderly i svc' was).grow later
  cases moves with
  | flags => exact fun j svc there => (orderly j svc there).grow later
  | reserve name opts host' ref reserved =>
    unfold Host.reserve at reserved
    split_ifs at reserved
    cases reserved
    intro j svc there
    rcases lookup_append there with old | ⟨_, rfl⟩
    · exact (orderly j svc old).grow later
    · exact ⟨fun _ => ⟨rfl, rfl⟩, nofun, nofun, fun _ => rfl, nofun⟩
  | adjust j svc f there adjusts => exact change there ((orderly j svc there).adjusts adjusts) rfl
  | start j svc starts there reserved =>
    subst starts
    obtain ⟨_, found', _, known⟩ := World.up_iff.mp fresh
    rw [found] at found'
    cases found'
    exact change there ((orderly j svc there).start (known.here there) _) rfl
  | stop j svc _ there => exact change there ((orderly j svc there).stop (registered.reserved j svc there)) rfl
  | system => exact fun j svc there => (orderly j svc there).grow later

namespace World

def Orderly (w : World Msg) : Prop := ∀ (h : Nat) (host : Host Msg), w.hosts[h]? = some host → host.Orderly

theorem orderly_next (ordered : w.Ordered) (orderly : w.Orderly) (fresh : w.StartsFresh a) (enabled : Enabled w a) :
    (w.next a).Orderly := by
  intro i there known
  rcases hosts_next enabled with ⟨node, incarnation, drainable, rfl⟩ | same | ⟨h, host, host', found, _, moves, changed⟩
  · rcases lookup_append known with old | ⟨_, rfl⟩
    · exact orderly i there old
    · intro j svc empty
      simp at empty
  · rw [same] at known
    exact orderly i there known
  · rw [changed] at known
    rcases lookup_modify known with ⟨rfl, _, _, rfl⟩ | ⟨_, old⟩
    · exact (orderly i host found).moves (ordered.registered i host found) found fresh moves
    · exact orderly i there old

theorem mailbox_next (enabled : Enabled w a) {j : Nat} (found : w.hosts[h]? = some host)
    (there : host.services[j]? = some svc) (found' : (w.next a).hosts[h]? = some host')
    (there' : host'.services[j]? = some svc') : svc'.mailbox = svc.mailbox ∨ a = .start h j := by
  have same : host'.services[j]? = host.services[j]? → svc'.mailbox = svc.mailbox := by
    intro unchanged
    rw [there', there] at unchanged
    cases unchanged
    rfl
  -- one service of the host changes
  have change : ∀ {i : Nat} {other : Service} {f : Service → Service}, host.services[i]? = some other →
      host'.services = host.services.modify i f → (f other).mailbox = other.mailbox → svc'.mailbox = svc.mailbox := by
    intro i other f known changed kept
    rw [changed] at there'
    rcases lookup_modify there' with ⟨rfl, _, was, rfl⟩ | ⟨_, was⟩
    · rw [there] at was known
      cases was
      cases known
      exact kept
    · rw [there] at was
      cases was
      rfl
  rcases hosts_next enabled with ⟨node, incarnation, drainable, rfl⟩ | unchanged | ⟨i, _, moved, known, _, moves, changed⟩
  · rcases lookup_append found' with old | ⟨last, rfl⟩
    · rw [found] at old
      cases old
      exact .inl (same rfl)
    · simp at there'
  · rw [unchanged, found] at found'
    cases found'
    exact .inl (same rfl)
  rw [changed] at found'
  rcases lookup_modify found' with ⟨rfl, _, _, rfl⟩ | ⟨_, old⟩
  case inr =>
    rw [found] at old
    cases old
    exact .inl (same rfl)
  rw [found] at known
  cases known
  cases moves with
  | flags | system => exact .inl (same rfl)
  | reserve name opts host' ref reserved =>
    unfold Host.reserve at reserved
    split_ifs at reserved
    cases reserved
    exact .inl (same (by rw [lookup_append_old there, there]))
  | adjust i other f known adjusts => exact .inl (change known rfl adjusts.same.2.1)
  | start i other starts known _ =>
    by_cases here : i = j
    · exact .inr (here ▸ starts)
    · refine .inl (same ?_)
      simp only [Host.start]
      rw [List.getElem?_modify_ne _ _ here]
  | stop i other _ known => exact .inl (change known rfl other.stop_same.2.1)

end World

end Skygo.Cluster
