import Skygo.Tcpsync.PoolSound

/-! Responses never cross: a connection is put back only when its responses match its requests.

Whoever holds a connection is alone with it, so a request that is out can only be answered to the
call that sent it. After any failure the connection is closed by its holder. The server answers
the frames of a connection in order, so the response with number `n` belongs to the request with
number `n`; of the pinger it is assumed that it reads what it asked for when it returns nil.
-/

set_option autoImplicit false

namespace Skygo.Tcpsync

open Semantics

def Conn.Balanced (conn : Conn) : Prop := conn.received = conn.sent.length

instance (conn : Conn) : Decidable conn.Balanced := by unfold Conn.Balanced; infer_instance

def Call.request (i : Nat) (call : Call) : Request := ⟨some i, call.attempt, call.req⟩

def sentBy (i : Nat) (conns : List Conn) : Nat :=
  (conns.map fun conn => conn.sent.countP fun request => request.caller = some i).sum

def Answers (conns : List Conn) (request : Request) (resp : Response) : Prop :=
  At conns resp.conn fun conn => conn.sent[resp.number]? = some request

def Place.Fits (conns : List Conn) (request : Request) : Place → Prop
  | .sending c => At conns c Conn.Balanced
  | .receiving c => At conns c fun conn =>
      conn.received + 1 = conn.sent.length ∧ conn.sent[conn.received]? = some request
  | .releasing c resp => At conns c Conn.Balanced ∧ Answers conns request resp
  | .closing _ (.ok resp) | .uncounting _ (.ok resp) | .returned (.ok resp) => Answers conns request resp
  | _ => True

def Place.spent : Place → Nat
  | .checking | .taking | .locking | .dialing | .undialing | .sending _ | .sleeping => 0
  | _ => 1

structure Call.Fits (opts : Options) (conns : List Conn) (i : Nat) (call : Call) : Prop where
  place : call.place.Fits conns (call.request i)
  sent : sentBy i conns ≤ call.attempt + call.place.spent
  attempts : (call.attempt : Int) < opts.maxAttempts
  latest : ∀ conn ∈ conns, ∀ request ∈ conn.sent, request.caller = some i → request.attempt ≤ call.attempt

def Sweep.clean (sweep : Sweep) : List Nat :=
  if sweep.place = .closing ∨ sweep.place = .uncounting then sweep.batch.tail else sweep.batch

/-- `who` may have sent requests on the connection `touched`; everything else is as before. -/
structure Spares (who touched : Option Nat) (conns conns' : List Conn) : Prop where
  keeps : ∀ (c : Nat) (conn : Conn), conns[c]? = some conn → ∃ conn', conns'[c]? = some conn' ∧
    conn.sent.IsPrefix conn'.sent ∧ (touched ≠ some c → conn'.sent = conn.sent ∧ conn'.received = conn.received)
  counts : ∀ i, who ≠ some i → sentBy i conns' = sentBy i conns
  requests : ∀ i, who ≠ some i → ∀ conn' ∈ conns', ∀ request ∈ conn'.sent, request.caller = some i →
    ∃ conn ∈ conns, request ∈ conn.sent

variable {conns conns' : List Conn} {who touched : Option Nat} {i k c : Nat} {opts : Options} {call : Call}
  {request : Request} {resp : Response}

theorem Spares.refl : Spares who touched conns conns where
  keeps _ conn found := ⟨conn, found, List.prefix_rfl, fun _ => ⟨rfl, rfl⟩⟩
  counts _ _ := rfl
  requests _ _ conn member _ here _ := ⟨conn, member, here⟩

theorem Spares.modify {f : Conn → Conn} (more : List Request) (grows : ∀ conn, (f conn).sent = conn.sent ++ more)
    (senders : ∀ request ∈ more, request.caller = who)
    (same : touched ≠ some c → ∀ conn, (f conn).sent = conn.sent ∧ (f conn).received = conn.received) :
    Spares who touched conns (conns.modify c f) where
  keeps d conn found := by
    by_cases here : d = c
    · subst here
      exact ⟨f conn, lookup_modify_self found, ⟨more, (grows conn).symm⟩, fun other => same other conn⟩
    · refine ⟨conn, ?_, List.prefix_rfl, fun _ => ⟨rfl, rfl⟩⟩
      rwa [List.getElem?_modify_ne f conns (Ne.symm here)]
  counts i other := by
    have none : (more.countP fun request => decide (request.caller = some i)) = 0 := by
      refine List.countP_eq_zero.mpr fun request member => ?_
      rw [senders request member]
      simpa using other
    unfold sentBy
    rw [map_modify_same fun conn _ => ?_]
    rw [grows, List.countP_append, none, Nat.add_zero]
  requests i other conn' member request here caller := by
    obtain ⟨d, found⟩ := List.getElem?_of_mem member
    rcases lookup_modify found with ⟨-, conn, was, rfl⟩ | ⟨-, was⟩
    · rw [grows, List.mem_append] at here
      rcases here with old | new
      · exact ⟨conn, List.mem_of_getElem? was, old⟩
      · exact absurd ((senders request new).symm.trans caller) other
    · exact ⟨conn', List.mem_of_getElem? was, here⟩

theorem Spares.quiet {f : Conn → Conn} (same : ∀ conn, (f conn).sent = conn.sent ∧ (f conn).received = conn.received) :
    Spares who none conns (conns.modify c f) :=
  .modify [] (fun conn => by rw [(same conn).1, List.append_nil]) (fun _ member => by cases member) fun _ => same

theorem Spares.dial {fresh : Conn} (unused : fresh.sent = []) : Spares who touched conns (conns ++ [fresh]) where
  keeps _ conn found := ⟨conn, lookup_append_old found, List.prefix_rfl, fun _ => ⟨rfl, rfl⟩⟩
  counts _ _ := by simp [sentBy, unused]
  requests _ _ conn member request here _ := by
    rcases List.mem_append.mp member with old | new
    · exact ⟨conn, old, here⟩
    · rw [List.mem_singleton.mp new, unused] at here
      cases here

section Spared

variable (spares : Spares who touched conns conns')
include spares

theorem Answers.spared (answers : Answers conns request resp) : Answers conns' request resp := by
  obtain ⟨conn, found, answered⟩ := at_iff.mp answers
  obtain ⟨conn', there, grown, -⟩ := spares.keeps _ conn found
  exact at_iff.mpr ⟨conn', there, lookup_prefix grown answered⟩

theorem balanced_spared (balanced : At conns c Conn.Balanced) (other : touched ≠ some c) : At conns' c Conn.Balanced := by
  obtain ⟨conn, found, same⟩ := at_iff.mp balanced
  obtain ⟨conn', there, -, kept⟩ := spares.keeps c conn found
  refine at_iff.mpr ⟨conn', there, ?_⟩
  rw [Conn.Balanced, (kept other).1, (kept other).2]
  exact same

theorem Place.Fits.spared {place : Place} (fits : place.Fits conns request)
    (other : ∀ c, touched = some c → place.conn ≠ some c) : place.Fits conns' request := by
  have apart (c : Nat) (holds : place.conn = some c) : touched ≠ some c := fun same => other c same holds
  cases place with
  | sending c => exact balanced_spared spares fits (apart c rfl)
  | receiving c =>
    obtain ⟨conn, found, waits, mine⟩ := at_iff.mp fits
    obtain ⟨conn', there, -, kept⟩ := spares.keeps c conn found
    obtain ⟨sent, received⟩ := kept (apart c rfl)
    exact at_iff.mpr ⟨conn', there, by rw [sent, received]; exact waits, by rw [sent, received]; exact mine⟩
  | releasing c resp => exact ⟨balanced_spared spares fits.1 (apart c rfl), Answers.spared spares fits.2⟩
  | closing c outcome =>
    cases outcome with
    | ok resp => exact Answers.spared spares fits
    | error failure => trivial
  | uncounting c outcome =>
    cases outcome with
    | ok resp => exact Answers.spared spares fits
    | error failure => trivial
  | returned outcome =>
    cases outcome with
    | ok resp => exact Answers.spared spares fits
    | error failure => trivial
  | _ => trivial

theorem Call.Fits.spared (fits : call.Fits opts conns i) (other : ∀ c, touched = some c → call.place.conn ≠ some c)
    (silent : who ≠ some i) : call.Fits opts conns' i where
  place := Place.Fits.spared spares fits.place other
  sent := by
    rw [spares.counts i silent]
    exact fits.sent
  attempts := fits.attempts
  latest conn' member request here caller := by
    obtain ⟨conn, was, old⟩ := spares.requests i silent conn' member request here caller
    exact fits.latest conn was request old caller

end Spared

namespace Pool

variable {s s' : Pool} {sweep : Sweep}

section Alone

theorem weigh_conn {place : Place} (holds : place.conn = some c) : place.weigh true (only c) = 1 := by
  rw [weigh_place, holds, Option.toList_some, weighConns_cons, weighConns_nil, only_some, if_pos rfl, only_none,
    Nat.mul_zero]

theorem weigh_batch (holds : c ∈ sweep.batch) : 1 ≤ weighConns (only c) (sweep.held true) := by
  have whole : sweep.held true = sweep.batch := if_neg (by simp)
  rw [whole, weighConns_only]
  exact List.count_pos_iff.mpr holds

theorem Counted.call_alone (counted : Counted s) (found : s.calls[i]? = some call) (holds : call.place.conn = some c) :
    c ∉ s.idle ∧ (∀ j other, j ≠ i → s.calls[j]? = some other → other.place.conn ≠ some c) ∧
      ∀ (k : Nat) (sweep : Sweep), s.sweeps[k]? = some sweep → c ∉ sweep.batch := by
  have once := counted.once c
  have mine := le_sum (g := fun call => call.place.weigh true (only c)) found
  simp only [weigh_conn holds] at mine
  unfold weigh at once
  refine ⟨fun member => ?_, fun j other apart there same => ?_, fun k sweep there member => ?_⟩
  · have idle := List.count_pos_iff.mpr member
    rw [← weighConns_only] at idle
    omega
  · have both := add_le_sum (g := fun call => call.place.weigh true (only c)) found there (Ne.symm apart)
    simp only [weigh_conn holds, weigh_conn same] at both
    omega
  · have theirs := le_sum (g := fun sweep => weighConns (only c) (sweep.held true)) there
    have some := weigh_batch member
    omega

theorem Counted.sweep_alone (counted : Counted s) (found : s.sweeps[k]? = some sweep) (head : sweep.batch.head? = some c) :
    c ∉ s.idle ∧ (∀ (j : Nat) (call : Call), s.calls[j]? = some call → call.place.conn ≠ some c) ∧ c ∉ sweep.batch.tail ∧
      ∀ (j : Nat) (other : Sweep), j ≠ k → s.sweeps[j]? = some other → c ∉ other.batch := by
  have once := counted.once c
  have mine := le_sum (g := fun sweep => weighConns (only c) (sweep.held true)) found
  have whole : sweep.held true = sweep.batch := if_neg (by simp)
  have first : weighConns (only c) sweep.batch = 1 + sweep.batch.tail.count c := by
    rw [weighConns_head head, only_some, if_pos rfl, weighConns_only]
  simp only [whole, first] at mine
  unfold weigh at once
  refine ⟨fun member => ?_, fun j call there same => ?_, fun member => ?_, fun j other apart there member => ?_⟩
  · have idle := List.count_pos_iff.mpr member
    rw [← weighConns_only] at idle
    omega
  · have theirs := le_sum (g := fun call => call.place.weigh true (only c)) there
    simp only [weigh_conn same] at theirs
    omega
  · have again := List.count_pos_iff.mpr member
    omega
  · have both := add_le_sum (g := fun sweep => weighConns (only c) (sweep.held true)) found there (Ne.symm apart)
    have some := weigh_batch member
    simp only [whole, first] at both
    omega

end Alone

structure Orderly (s : Pool) : Prop where
  retries : 0 < s.opts.maxAttempts
  idle : ∀ c ∈ s.idle, At s.conns c Conn.Balanced
  calls : ∀ (i : Nat) (call : Call), s.calls[i]? = some call → call.Fits s.opts s.conns i
  fresh : ∀ i, s.calls.length ≤ i → sentBy i s.conns = 0
  sweeps : ∀ (k : Nat) (sweep : Sweep), s.sweeps[k]? = some sweep → ∀ c ∈ sweep.clean, At s.conns c Conn.Balanced

theorem mem_batch_of_clean (member : c ∈ sweep.clean) : c ∈ sweep.batch := by
  unfold Sweep.clean at member
  split at member
  · exact List.mem_of_mem_tail member
  · exact member

theorem Orderly.callStep (orderly : Orderly s) (found : s.calls[i]? = some call) {f : Call → Call}
    (spares : Spares who touched s.conns s'.conns) (silent : ∀ j, j ≠ i → who ≠ some j)
    (alone : ∀ c, touched = some c → c ∉ s.idle ∧
      (∀ j other, j ≠ i → s.calls[j]? = some other → other.place.conn ≠ some c) ∧
      ∀ (k : Nat) (sweep : Sweep), s.sweeps[k]? = some sweep → c ∉ sweep.batch)
    (opts : s'.opts = s.opts) (calls : s'.calls = s.calls.modify i f) (sweeps : s'.sweeps = s.sweeps)
    (idle : ∀ c ∈ s'.idle, c ∈ s.idle ∨ At s'.conns c Conn.Balanced)
    (fits : (f call).Fits s.opts s'.conns i) : Orderly s' where
  retries := by rw [opts]; exact orderly.retries
  idle c member := by
    rcases idle c member with old | new
    · exact balanced_spared spares (orderly.idle c old) fun same => (alone c same).1 old
    · exact new
  calls := by
    rw [calls, opts]
    refine forall_modify (fun old was => ?_) fun j other apart there => ?_
    · rw [found, Option.some.injEq] at was
      subst was
      exact fits
    · exact (orderly.calls j other there).spared spares (fun c same => (alone c same).2.1 j other apart there) (silent j apart)
  fresh j beyond := by
    rw [calls, List.length_modify] at beyond
    have inside := lookup_lt found
    rw [spares.counts j (silent j (by omega))]
    exact orderly.fresh j beyond
  sweeps := by
    rw [sweeps]
    intro k sweep there c member
    exact balanced_spared spares (orderly.sweeps k sweep there c member) fun same =>
      (alone c same).2.2 k sweep there (mem_batch_of_clean member)

theorem Orderly.sweepStep (orderly : Orderly s) (found : s.sweeps[k]? = some sweep) {f : Sweep → Sweep}
    (spares : Spares none touched s.conns s'.conns)
    (alone : ∀ c, touched = some c → c ∉ s.idle ∧
      (∀ (j : Nat) (call : Call), s.calls[j]? = some call → call.place.conn ≠ some c) ∧ c ∉ sweep.batch.tail ∧
      ∀ (j : Nat) (other : Sweep), j ≠ k → s.sweeps[j]? = some other → c ∉ other.batch)
    (opts : s'.opts = s.opts) (calls : s'.calls = s.calls) (sweeps : s'.sweeps = s.sweeps.modify k f)
    (idle : ∀ c ∈ s'.idle, c ∈ s.idle ∨ At s'.conns c Conn.Balanced)
    (clean : ∀ c ∈ (f sweep).clean, At s'.conns c Conn.Balanced) : Orderly s' where
  retries := by rw [opts]; exact orderly.retries
  idle c member := by
    rcases idle c member with old | new
    · exact balanced_spared spares (orderly.idle c old) fun same => (alone c same).1 old
    · exact new
  calls := by
    rw [calls, opts]
    intro j call there
    exact (orderly.calls j call there).spared spares (fun c same => (alone c same).2.1 j call there) nofun
  fresh j beyond := by
    rw [spares.counts j nofun]
    exact orderly.fresh j (calls ▸ beyond)
  sweeps := by
    rw [sweeps]
    refine forall_modify (fun old was => ?_) fun j other apart there c member => ?_
    · rw [found, Option.some.injEq] at was
      subst was
      exact clean
    · exact balanced_spared spares (orderly.sweeps j other there c member) fun same =>
        (alone c same).2.2.2 j other apart there (mem_batch_of_clean member)

theorem Orderly.setSweep (orderly : Orderly s) (found : s.sweeps[k]? = some sweep) {f : Sweep → Sweep}
    (spares : Spares none none s.conns s'.conns) (opts : s'.opts = s.opts) (calls : s'.calls = s.calls)
    (sweeps : s'.sweeps = s.sweeps.modify k f) (idle : ∀ c ∈ s'.idle, c ∈ s.idle ∨ At s'.conns c Conn.Balanced)
    (fewer : ∀ c ∈ (f sweep).clean, c ∈ sweep.clean) : Orderly s' :=
  orderly.sweepStep found spares (fun _ => nofun) opts calls sweeps idle
    fun c member => balanced_spared spares (orderly.sweeps k sweep found c (fewer c member)) nofun

theorem clean_subset (whole : ¬ (sweep.place = .closing ∨ sweep.place = .uncounting)) {later : SweepPlace} :
    ∀ c ∈ ({ sweep with place := later } : Sweep).clean, c ∈ sweep.clean := by
  intro c member
  rw [Sweep.clean, if_neg whole]
  have inside : c ∈ ({ sweep with place := later } : Sweep).batch := mem_batch_of_clean member
  exact inside

theorem Orderly.frame (orderly : Orderly s) (spares : Spares none none s.conns s'.conns) (opts : s'.opts = s.opts)
    (calls : s'.calls = s.calls) (sweeps : s'.sweeps = s.sweeps) (idle : ∀ c ∈ s'.idle, c ∈ s.idle) : Orderly s' where
  retries := by rw [opts]; exact orderly.retries
  idle c member := balanced_spared spares (orderly.idle c (idle c member)) nofun
  calls := by
    rw [calls, opts]
    exact fun j call there => (orderly.calls j call there).spared spares (fun _ => nofun) nofun
  fresh j beyond := by
    rw [spares.counts j nofun]
    exact orderly.fresh j (calls ▸ beyond)
  sweeps := by
    rw [sweeps]
    exact fun k sweep there c member => balanced_spared spares (orderly.sweeps k sweep there c member) nofun

theorem Orderly.moves (orderly : Orderly s) (found : s.calls[i]? = some call) (later : Place)
    (spares : Spares none touched s.conns s'.conns)
    (alone : ∀ c, touched = some c → c ∉ s.idle ∧
      (∀ j other, j ≠ i → s.calls[j]? = some other → other.place.conn ≠ some c) ∧
      ∀ (k : Nat) (sweep : Sweep), s.sweeps[k]? = some sweep → c ∉ sweep.batch)
    (opts : s'.opts = s.opts) (calls : s'.calls = s.calls.modify i fun call => { call with place := later })
    (sweeps : s'.sweeps = s.sweeps) (idle : ∀ c ∈ s'.idle, c ∈ s.idle ∨ At s'.conns c Conn.Balanced)
    (spent : call.place.spent ≤ later.spent) (placed : later.Fits s'.conns (call.request i)) : Orderly s' := by
  refine orderly.callStep found spares (fun _ _ => nofun) alone opts calls sweeps idle ?_
  have fits := orderly.calls i call found
  refine ⟨placed, ?_, fits.attempts, fun conn' member request here caller => ?_⟩
  · rw [spares.counts i nofun]
    exact fits.sent.trans (Nat.add_le_add_left spent _)
  · obtain ⟨conn, was, old⟩ := spares.requests i nofun conn' member request here caller
    exact fits.latest conn was request old caller

theorem Orderly.setPlace (orderly : Orderly s) (found : s.calls[i]? = some call) (later : Place)
    (spares : Spares none none s.conns s'.conns) (opts : s'.opts = s.opts)
    (calls : s'.calls = s.calls.modify i fun call => { call with place := later }) (sweeps : s'.sweeps = s.sweeps)
    (idle : ∀ c ∈ s'.idle, c ∈ s.idle ∨ At s'.conns c Conn.Balanced)
    (spent : call.place.spent ≤ later.spent) (placed : later.Fits s'.conns (call.request i)) : Orderly s' :=
  orderly.moves found later spares (fun _ => nofun) opts calls sweeps idle spent placed

theorem spent_le_one (place : Place) : place.spent ≤ 1 := by cases place <;> simp [Place.spent]

theorem fits_concluded {outcome : Except Failure Response} (fits : call.Fits opts conns i)
    (answers : ∀ resp, outcome = .ok resp → Answers conns (call.request i) resp) :
    (call.conclude opts outcome).Fits opts conns i := by
  have sent := fits.sent.trans (Nat.add_le_add_left (spent_le_one call.place) _)
  unfold Call.conclude
  split
  · next resp => exact ⟨answers resp rfl, sent, fits.attempts, fits.latest⟩
  · split
    · next more =>
      refine ⟨trivial, sent, more, fun conn member request here caller => ?_⟩
      exact (fits.latest conn member request here caller).trans (Nat.le_succ _)
    · exact ⟨trivial, sent, fits.attempts, fits.latest⟩

theorem Orderly.conclude (orderly : Orderly s) (found : s.calls[i]? = some call) (outcome : Except Failure Response)
    (spares : Spares none none s.conns s'.conns) (opts : s'.opts = s.opts)
    (calls : s'.calls = s.calls.modify i (Call.conclude s.opts outcome)) (sweeps : s'.sweeps = s.sweeps)
    (idle : ∀ c ∈ s'.idle, c ∈ s.idle ∨ At s'.conns c Conn.Balanced)
    (answers : ∀ resp, outcome = .ok resp → Answers s.conns (call.request i) resp) : Orderly s' := by
  refine orderly.callStep found spares (fun _ _ => nofun) (fun _ => nofun) opts calls sweeps idle ?_
  have fits := fits_concluded (orderly.calls i call found) answers
  refine fits.spared spares (fun _ => nofun) nofun

theorem not_sent (none : sentBy i conns = 0) {conn : Conn} (member : conn ∈ conns) (here : request ∈ conn.sent) :
    request.caller ≠ some i := by
  intro caller
  obtain ⟨c, found⟩ := List.getElem?_of_mem member
  have counted := le_sum (g := fun conn => conn.sent.countP fun request => decide (request.caller = some i)) found
  have some : 0 < conn.sent.countP fun request => decide (request.caller = some i) :=
    List.countP_pos_iff.mpr ⟨request, here, by simpa using caller⟩
  unfold sentBy at none
  omega

theorem fits_written {conn : Conn} (fits : call.Fits opts conns i) (found : conns[c]? = some conn) (idle : call.place.spent = 0)
    (later : Place) (spent : later.spent = 1)
    (placed : later.Fits (conns.modify c fun conn => { conn with sent := conn.sent ++ [call.request i] }) (call.request i)) :
    ({ call with place := later } : Call).Fits opts
      (conns.modify c fun conn => { conn with sent := conn.sent ++ [call.request i] }) i := by
  refine ⟨placed, ?_, fits.attempts, fun conn' member request here caller => ?_⟩
  · have more := sum_modify (g := fun conn => conn.sent.countP fun request => decide (request.caller = some i))
      (f := fun conn => { conn with sent := conn.sent ++ [call.request i] }) found
    have one : ([call.request i].countP fun request => decide (request.caller = some i)) = 1 := by simp [Call.request]
    have sent := fits.sent
    simp only [List.countP_append, one] at more
    unfold sentBy at *
    rw [idle] at sent
    show _ ≤ call.attempt + later.spent
    omega
  · obtain ⟨d, there⟩ := List.getElem?_of_mem member
    rcases lookup_modify there with ⟨-, old, was, rfl⟩ | ⟨-, was⟩
    · rcases List.mem_append.mp here with before | new
      · exact fits.latest old (List.mem_of_getElem? was) request before caller
      · rw [List.mem_singleton.mp new]
        exact le_refl _
    · exact fits.latest conn' (List.mem_of_getElem? was) request here caller

theorem Orderly.writes (orderly : Orderly s) (counted : Counted s) (found : s.calls[i]? = some call)
    (place : call.place = .sending c) (later : Place) (spent : later.spent = 1)
    (placed : ∀ conn, s.conns[c]? = some conn → conn.received = conn.sent.length →
      later.Fits (s.write c (call.request i)).conns (call.request i)) :
    Orderly ((s.write c (call.request i)).setPlace i later) := by
  have fits := orderly.calls i call found
  have balanced : At s.conns c Conn.Balanced := by simpa [place, Place.Fits] using fits.place
  obtain ⟨conn, there, even⟩ := at_iff.mp balanced
  have spares : Spares (some i) (some c) s.conns (s.write c (call.request i)).conns :=
    .modify [call.request i] (fun _ => rfl) (fun request member => by rw [List.mem_singleton.mp member]; rfl)
      (fun other => absurd rfl other)
  refine orderly.callStep found spares (fun j apart => by simpa using Ne.symm apart) ?_ rfl rfl rfl
    (fun d member => .inl member) ?_
  · rintro _ ⟨⟩
    exact counted.call_alone found (by rw [place]; rfl)
  · exact fits_written fits there (by simp [place, Place.spent]) later spent (placed conn there even)

theorem Orderly.goes (orderly : Orderly s) {place later : Place} (here : s.CallAt i place) (opts : s'.opts = s.opts)
    (conns : s'.conns = s.conns) (calls : s'.calls = s.calls.modify i fun call => { call with place := later })
    (sweeps : s'.sweeps = s.sweeps) (idle : s'.idle = s.idle) (spent : place.spent ≤ later.spent)
    (placed : ∀ conns request, later.Fits conns request) : Orderly s' := by
  obtain ⟨call, found, rfl⟩ := at_iff.mp here
  exact orderly.setPlace found later (conns ▸ .refl) opts calls sweeps (fun c member => .inl (idle ▸ member)) spent
    (placed _ _)

theorem Orderly.fails (orderly : Orderly s) {place : Place} {failure : Failure} (here : s.CallAt i place)
    (opts : s'.opts = s.opts) (conns : s'.conns = s.conns)
    (calls : s'.calls = s.calls.modify i (Call.conclude s.opts (.error failure))) (sweeps : s'.sweeps = s.sweeps)
    (idle : s'.idle = s.idle) : Orderly s' := by
  obtain ⟨call, found, -⟩ := at_iff.mp here
  exact orderly.conclude found (.error failure) (conns ▸ .refl) opts calls sweeps (fun c member => .inl (idle ▸ member)) nofun

theorem Orderly.releases (orderly : Orderly s) {later : Place} (here : s.CallAt i (.releasing c resp))
    (spent : (Place.releasing c resp).spent ≤ later.spent)
    (placed : ∀ conns request, Answers conns request resp → later.Fits conns request) :
    Orderly ((s.use c).setPlace i later) := by
  obtain ⟨call, found, place⟩ := at_iff.mp here
  have waiting := (orderly.calls i call found).place
  rw [place] at waiting
  have spares : Spares none none s.conns (s.use c).conns := .quiet fun _ => ⟨rfl, rfl⟩
  exact orderly.setPlace found later spares rfl rfl rfl (fun d member => .inl member) (place ▸ spent)
    (placed _ _ (Answers.spared spares waiting.2))

theorem Orderly.sweepsOn (orderly : Orderly s) {first later : SweepPlace} (here : At s.sweeps k fun sweep => sweep.place = first)
    (whole : ¬ (first = .closing ∨ first = .uncounting)) :
    Orderly (s.setSweep k fun sweep => { sweep with place := later }) := by
  obtain ⟨sweep, found, rfl⟩ := at_iff.mp here
  exact orderly.setSweep found .refl rfl rfl rfl (fun c member => .inl member) (clean_subset whole)

/-- When the pinger returns nil, it has read a response to each of its requests. -/
def PingsBalanced (s : Pool) : Action → Prop
  | .sweepPing _ c pings received => At s.conns c fun conn => received = conn.sent.length + pings.length
  | _ => True

instance (s : Pool) (a : Action) : Decidable (s.PingsBalanced a) := by
  rcases a with _ | _ <;> unfold PingsBalanced <;> infer_instance

theorem orderly_next {a : Action} (counted : Counted s) (orderly : Orderly s) (pings : s.PingsBalanced a)
    (enabled : s.Enabled a) : Orderly (s.next a) := by
  have same : ∀ c ∈ s.idle, c ∈ s.idle ∨ At s.conns c Conn.Balanced := fun c member => .inl member
  have fewer : ∀ c ∈ s.idle.tail, c ∈ s.idle ∨ At s.conns c Conn.Balanced := fun c member => .inl (List.mem_of_mem_tail member)
  cases a with
  | clock now => exact orderly.frame .refl rfl rfl rfl fun _ member => member
  | cancel i =>
    obtain ⟨call, found⟩ : ∃ call, s.calls[i]? = some call := ⟨_, List.getElem?_eq_getElem enabled⟩
    have fits := orderly.calls i call found
    exact orderly.callStep found (.refl : Spares none none s.conns s.conns) (fun _ _ => nofun) (fun _ => nofun) rfl rfl rfl
      same ⟨fits.place, fits.sent, fits.attempts, fits.latest⟩
  | start req =>
    refine ⟨orderly.retries, orderly.idle, fun i call found => ?_, fun i beyond => ?_, orderly.sweeps⟩
    · rcases lookup_append found with old | ⟨rfl, rfl⟩
      · exact orderly.calls i call old
      · have none := orderly.fresh s.calls.length (le_refl _)
        refine ⟨?_, ?_, orderly.retries, fun conn member request here caller => absurd caller (not_sent none member here)⟩
        · unfold Call.start
          dsimp only
          split <;> trivial
        · show sentBy s.calls.length s.conns ≤ _
          omega
    · refine orderly.fresh i ?_
      simp only [next, List.length_append, List.length_singleton] at beyond
      omega
  | check i =>
    dsimp only [next]
    split
    · exact orderly.fails enabled rfl rfl rfl rfl rfl
    · exact orderly.goes enabled rfl rfl rfl rfl rfl (Nat.le_refl 0) fun _ _ => trivial
  | takeCancelled i => exact orderly.fails (At.mono enabled fun _ both => both.1) rfl rfl rfl rfl rfl
  | take i c =>
    obtain ⟨call, found, place⟩ := at_iff.mp enabled.1
    exact orderly.setPlace found _ .refl rfl rfl rfl fewer (by simp [place, Place.spent])
      (orderly.idle c (List.mem_of_mem_head? enabled.2))
  | noneIdle i =>
    exact orderly.goes (At.mono enabled.1 fun _ both => both.1) rfl rfl rfl rfl rfl (Nat.le_refl 0) fun _ _ => trivial
  | lock i =>
    dsimp only [next]
    split
    · exact orderly.fails enabled rfl rfl rfl rfl rfl
    · split
      · exact orderly.goes enabled rfl rfl rfl rfl rfl (Nat.zero_le _) fun _ _ => trivial
      · exact orderly.goes enabled rfl rfl rfl rfl rfl (Nat.le_refl 0) fun _ _ => trivial
  | dialed i =>
    obtain ⟨call, found, place⟩ := at_iff.mp enabled
    refine orderly.setPlace found _ (.dial rfl) rfl rfl rfl (fun c member => .inl member) (by simp [place, Place.spent]) ?_
    exact at_iff.mpr ⟨_, List.getElem?_concat_length, rfl⟩
  | dialFailed i => exact orderly.goes enabled rfl rfl rfl rfl rfl (Nat.le_refl 0) fun _ _ => trivial
  | undial i => exact orderly.fails enabled rfl rfl rfl rfl rfl
  | send i c request =>
    obtain ⟨call, found, place⟩ := at_iff.mp enabled.1
    obtain ⟨rfl, -⟩ := enabled.2.1.here found
    refine orderly.writes counted found place _ rfl fun conn there even => ?_
    -- the request is the only one without a response
    refine at_iff.mpr ⟨_, lookup_modify_self there, ?_, ?_⟩
    · simp [even]
    · simp [even]
  | sendFailed i c delivered =>
    cases delivered with
    | none => exact orderly.goes enabled.1 rfl rfl rfl rfl rfl (Nat.zero_le _) fun _ _ => trivial
    | some request =>
      obtain ⟨call, found, place⟩ := at_iff.mp enabled.1
      obtain ⟨rfl, -⟩ := (enabled.2 request rfl).here found
      exact orderly.writes counted found place _ rfl fun _ _ _ => trivial
  | receive i c number =>
    obtain ⟨call, found, place⟩ := at_iff.mp enabled.1
    have waiting := (orderly.calls i call found).place
    rw [place] at waiting
    obtain ⟨conn, there, waits, mine⟩ := at_iff.mp waiting
    obtain rfl : conn.received = number := enabled.2.here there
    have spares : Spares none (some c) s.conns (s.conns.modify c fun conn => { conn with received := conn.received + 1 }) :=
      .modify [] (fun _ => (List.append_nil _).symm) (fun _ member => by cases member) (fun other => absurd rfl other)
    refine orderly.moves found _ spares ?_ rfl rfl rfl (fun d member => .inl member) (by simp [place, Place.spent])
      ⟨at_iff.mpr ⟨_, lookup_modify_self there, waits⟩, at_iff.mpr ⟨_, lookup_modify_self there, mine⟩⟩
    rintro _ ⟨⟩
    exact counted.call_alone found (by rw [place]; rfl)
  | receiveFailed i c => exact orderly.goes enabled rfl rfl rfl rfl rfl (Nat.le_refl 1) fun _ _ => trivial
  | releaseClosed i c resp => exact orderly.releases enabled.1 (Nat.le_refl 1) fun _ _ answers => answers
  | releaseIdle i c resp =>
    obtain ⟨call, found, place⟩ := at_iff.mp enabled.1
    have waiting := (orderly.calls i call found).place
    rw [place] at waiting
    have spares : Spares none none s.conns (s.use c).conns := .quiet fun _ => ⟨rfl, rfl⟩
    refine orderly.conclude found (.ok resp) spares rfl rfl rfl (fun d member => ?_) fun resp' same => ?_
    · rcases List.mem_append.mp member with old | new
      · exact .inl old
      · rw [List.mem_singleton.mp new]
        exact .inr (balanced_spared spares waiting.1 nofun)
    · cases same
      exact waiting.2
  | releaseFull i c resp => exact orderly.releases enabled.1 (Nat.le_refl 1) fun _ _ answers => answers
  | closeConn i c outcome =>
    obtain ⟨call, found, place⟩ := at_iff.mp enabled
    have waiting := (orderly.calls i call found).place
    rw [place] at waiting
    have spares : Spares none none s.conns (s.shut c).conns := .quiet fun _ => ⟨rfl, rfl⟩
    refine orderly.setPlace found _ spares rfl rfl rfl (fun d member => .inl member) (by simp [place, Place.spent]) ?_
    cases outcome with
    | ok resp => exact Answers.spared spares waiting
    | error failure => trivial
  | uncount i c outcome =>
    obtain ⟨call, found, place⟩ := at_iff.mp enabled
    have waiting := (orderly.calls i call found).place
    rw [place] at waiting
    refine orderly.conclude found outcome .refl rfl rfl rfl same fun resp same => ?_
    subst same
    exact waiting
  | wake i => exact orderly.goes enabled rfl rfl rfl rfl rfl (Nat.le_refl 0) fun _ _ => trivial
  | wakeCancelled i =>
    exact orderly.goes (At.mono enabled fun _ both => both.1) rfl rfl rfl rfl rfl (Nat.zero_le _) fun _ _ => trivial
  | wakeClosed i => exact orderly.goes enabled.1 rfl rfl rfl rfl rfl (Nat.zero_le _) fun _ _ => trivial
  | sweep =>
    refine ⟨orderly.retries, orderly.idle, orderly.calls, orderly.fresh, fun k sweep found c member => ?_⟩
    rcases lookup_append found with old | ⟨-, rfl⟩
    · exact orderly.sweeps k sweep old c member
    · simp [Sweep.clean] at member
  | sweepCheck k => exact orderly.sweepsOn enabled (by decide)
  | sweepTake k c =>
    obtain ⟨sweep, found, place⟩ := at_iff.mp enabled.1
    have all : sweep.clean = sweep.batch := if_neg (by simp [place])
    refine orderly.sweepStep found (.refl : Spares none none s.conns s.conns) (fun _ => nofun) rfl rfl rfl fewer
      fun d member => ?_
    rcases List.mem_append.mp (mem_batch_of_clean member) with old | new
    · exact orderly.sweeps k sweep found d (all ▸ old)
    · rw [List.mem_singleton.mp new]
      exact orderly.idle c (List.mem_of_mem_head? enabled.2)
  | sweepDrained k => exact orderly.sweepsOn enabled.1 (by decide)
  | sweepExpired k c => exact orderly.sweepsOn enabled.1.at (by decide)
  | sweepFresh k c => exact orderly.sweepsOn enabled.1.at (by decide)
  | sweepPing k c frames received =>
    obtain ⟨sweep, found, place, head⟩ := at_iff.mp enabled.1
    obtain ⟨conn, there, even⟩ := at_iff.mp (show At s.conns c _ from pings)
    have alone := counted.sweep_alone found head
    have spares : Spares none (some c) s.conns (s.next (.sweepPing k c frames received)).conns :=
      .modify (frames.map fun payload => { caller := none, payload := payload }) (fun _ => rfl)
        (fun request member => by obtain ⟨payload, -, rfl⟩ := List.mem_map.mp member; rfl) (fun other => absurd rfl other)
    refine orderly.sweepStep found spares (by rintro _ ⟨⟩; exact alone) rfl rfl rfl (fun d member => .inl member)
      fun d member => ?_
    by_cases here : c = d
    · subst here
      refine at_iff.mpr ⟨_, lookup_modify_self there, ?_⟩
      simp [Conn.Balanced, even]
    · exact balanced_spared spares
        (orderly.sweeps k sweep found d (clean_subset (by simp [place]) d member)) (by simpa using here)
  | sweepPingFailed k c frames received =>
    obtain ⟨sweep, found, place, head⟩ := at_iff.mp enabled.1
    have alone := counted.sweep_alone found head
    have spares : Spares none (some c) s.conns (s.next (.sweepPingFailed k c frames received)).conns :=
      .modify (frames.map fun payload => { caller := none, payload := payload }) (fun _ => rfl)
        (fun request member => by obtain ⟨payload, -, rfl⟩ := List.mem_map.mp member; rfl) (fun other => absurd rfl other)
    refine orderly.sweepStep found spares (by rintro _ ⟨⟩; exact alone) rfl rfl rfl (fun d member => .inl member)
      fun d member => ?_
    -- the connection that failed is given up, and it is not among the others
    have rest : d ∈ sweep.batch.tail := by simpa [Sweep.clean] using member
    refine balanced_spared spares (orderly.sweeps k sweep found d (clean_subset (by simp [place]) d member)) ?_
    rintro ⟨⟩
    exact alone.2.2.1 rest
  | sweepPutClosed k c => exact orderly.sweepsOn enabled.1.at (by decide)
  | sweepPut k c =>
    obtain ⟨sweep, found, place, head⟩ := at_iff.mp enabled.1
    have all : sweep.clean = sweep.batch := if_neg (by simp [place])
    refine orderly.setSweep found .refl rfl rfl rfl (fun d member => ?_) fun d member => ?_
    · rcases List.mem_append.mp member with old | new
      · exact .inl old
      · rw [List.mem_singleton.mp new]
        exact .inr (orderly.sweeps k sweep found c (all ▸ List.mem_of_mem_head? head))
    · have rest : d ∈ sweep.batch.tail := by simpa [Sweep.clean] using member
      exact all ▸ List.mem_of_mem_tail rest
  | sweepPutFull k c => exact orderly.sweepsOn enabled.1.at (by decide)
  | sweepClose k c =>
    obtain ⟨sweep, found, place, -⟩ := at_iff.mp enabled
    have spares : Spares none none s.conns (s.shut c).conns := .quiet fun _ => ⟨rfl, rfl⟩
    refine orderly.setSweep found spares rfl rfl rfl (fun d member => .inl member) fun d member => ?_
    have rest : d ∈ sweep.batch.tail := by simpa [Sweep.clean] using member
    simpa [Sweep.clean, place] using rest
  | sweepUncount k c =>
    obtain ⟨sweep, found, place, -⟩ := at_iff.mp enabled
    refine orderly.setSweep found .refl rfl rfl rfl same fun d member => ?_
    have rest : d ∈ sweep.batch.tail := by simpa [Sweep.clean] using member
    simpa [Sweep.clean, place] using rest
  | sweepEnd k => exact orderly.sweepsOn (At.mono enabled fun _ both => both.1) (by decide)
  | close => exact orderly.frame .refl rfl rfl rfl fun _ member => member
  | closeTake c => exact orderly.frame .refl rfl rfl rfl fun _ member => List.mem_of_mem_tail member
  | closeIdle c =>
    have spares : Spares none none s.conns (s.shut c).conns := .quiet fun _ => ⟨rfl, rfl⟩
    exact orderly.frame spares rfl rfl rfl fun _ member => member
  | closeUncount c => exact orderly.frame .refl rfl rfl rfl fun _ member => member
  | closeEnd => exact orderly.frame .refl rfl rfl rfl fun _ member => member

theorem orderly_start (opts : Options) : Orderly (start opts) where
  retries := by
    simp only [start, Options.maxAttempts, Options.setDefaults]
    split <;> omega
  idle _ member := by cases member
  calls _ _ found := by simp [start] at found
  fresh _ _ := rfl
  sweeps _ _ found := by simp [start] at found

/-- With a pinger that leaves the stream balanced: what lies idle is balanced, and a call that returns a response returns
the one to the request it sent last, having sent no more than the attempts it has. -/
theorem responses_never_cross (opts : Options) (actions : List Action) (s : Pool)
    (ran : machine.run (start opts) actions = some s) (pings : machine.Meets PingsBalanced (start opts) actions) :
    (∀ c ∈ s.idle, At s.conns c fun conn => conn.received = conn.sent.length) ∧
      ∀ i call, s.calls[i]? = some call →
        (sentBy i s.conns : Int) ≤ 1 + opts.setDefaults.retryCount ∧
        ∀ resp, call.place = .returned (.ok resp) →
          (At s.conns resp.conn fun conn => conn.sent[resp.number]? = some ⟨some i, call.attempt, call.req⟩) ∧
          ∀ conn ∈ s.conns, ∀ request ∈ conn.sent, request.caller = some i → request.attempt ≤ call.attempt := by
  have both : Counted s ∧ Orderly s :=
    Machine.run_keeps_where (I := fun s => Counted s ∧ Orderly s)
      (fun s a known allowed enabled => ⟨known.1.moves (moves_next enabled) (opts_next s a),
        orderly_next known.1 known.2 allowed enabled⟩) ran pings ⟨counted_start opts, orderly_start opts⟩
  have same := opts_reachable ⟨actions, ran⟩
  refine ⟨both.2.idle, fun i call found => ?_⟩
  have fits := both.2.calls i call found
  refine ⟨?_, fun resp returned => ⟨?_, fits.latest⟩⟩
  · have sent := fits.sent.trans (Nat.add_le_add_left (spent_le_one call.place) _)
    have attempts := fits.attempts
    rw [same, Options.maxAttempts] at attempts
    omega
  · have answered := fits.place
    rw [returned] at answered
    exact answered

def shared : List Action :=
  served ++ [.releaseIdle 0 0 ⟨0, 0⟩, .start [7], .check 1, .take 1 0, .send 1 0 ⟨some 1, 0, [7]⟩, .receive 1 0 1,
    .releaseIdle 1 0 ⟨0, 1⟩]

theorem responses_never_cross_shared :
    (machine.after (start { maxSize := 1 }) shared).idle = [0] ∧
      At (machine.after (start { maxSize := 1 }) shared).conns 0 fun conn => conn.received = conn.sent.length := by
  have ran : machine.run (start { maxSize := 1 }) shared = some (machine.after (start { maxSize := 1 }) shared) :=
    Machine.run_after (by decide +kernel)
  have idle : (machine.after (start { maxSize := 1 }) shared).idle = [0] := by decide +kernel
  have crossed := responses_never_cross { maxSize := 1 } shared _ ran (by decide +kernel)
  exact ⟨idle, crossed.1 0 (by rw [idle]; exact List.mem_singleton_self 0)⟩

end Pool

end Skygo.Tcpsync
