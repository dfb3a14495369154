/-
  Manager/Sessions.lean --- several sessions of one module.

  Source: `IS_session_create`, `IS_session_destroy`, `IS_create_conn`, `IS_destroy_conn` and
  the selection of `IS_single_chunk_map`, with the global `NUM_CB` that `portal_parser`
  sets and `submit_queues`.

  Every session has a number of servers of its own, `cb_num`, and `NUM_CB` is that of the
  last call of `IS_session_create`, also of one that failed.
-/
import Hydra.Manager.PortalFile
import Hydra.Manager.Selection

set_option autoImplicit false

namespace Hydra.Manager

open Hydra.Foundation

/-! ## The sessions of a module -/

/-- `struct IS_connection`: the session it is made for and its CPU. -/
structure IsConnection where
  isSess : Nat
  cpuId : Nat
  deriving DecidableEq, Repr

/-- A session with its `IS_conns`; a slot without a connection is `NULL`. -/
structure OpenSession where
  session : Session
  isConns : List (Option IsConnection)

/-- The module: `submit_queues`, `NUM_CB`, and a place for each call of
`IS_session_create`, empty if it failed. -/
structure Globals where
  submitQueues : Nat
  numCb : Nat
  sessions : List (Option OpenSession)

/-- The module as it is loaded. -/
def Globals.init (submitQueues : Nat) : Globals := ⟨submitQueues, 0, []⟩

/-! ## Creating sessions -/

/-- A well-formed portal list, behind `rdma://`: there are as many portals as it counts. -/
structure PortalString where
  text : List UInt8
  fits : rdmaScheme.length + text.length + 1 ≤ maxPortalName
  count : 0 ≤ (portalCount text).toInt
  entries : ∀ k : Nat, (k : Int) < (portalCount text).toInt →
    ∃ s, fieldFrom comma (k + 1) (some text) = some s ∧ colon ∈ s.take addrSize

/-- How many servers it has. -/
def PortalString.servers (p : PortalString) : Nat := (portalCount p.text).toInt.toNat

/-- A call of `IS_session_create`: the portal, and whether there is memory for the array of
connections and for the connection of each CPU. -/
structure Creation where
  portal : PortalString
  array : Bool
  conn : Nat → Bool

/-- `IS_create_conn`; `none` is `-ENOMEM`. -/
def isCreateConn (conn : Nat → Bool) (sess cpu : Nat) : Option IsConnection :=
  if conn cpu then some ⟨sess, cpu⟩ else none

/-- The loop over the CPUs, with `count` to go.  On `-ENOMEM` the connections made so far
are destroyed, and none is left. -/
def createConns (conn : Nat → Bool) (sess : Nat) : Nat → Nat → Option (List (Option IsConnection))
  | 0, _ => some []
  | count + 1, cpu =>
      (isCreateConn conn sess cpu).bind fun c =>
        (createConns conn sess count (cpu + 1)).map fun conns => some c :: conns

/-- `IS_session_create` on a new session. -/
def Globals.isSessionCreate (a : Allocator) (cfg : Config) (g : Globals) (c : Creation) :
    Except PortalFault Globals :=
  match sessionPortals a (rdmaScheme ++ c.portal.text) with
  | .error e => .error e
  | .ok p =>
      let cbNum := p.cbNum.toInt.toNat
      let conns :=
        if c.array then createConns c.conn g.sessions.length g.submitQueues 0 else none
      .ok { g with
        numCb := cbNum
        sessions := g.sessions ++ [conns.map fun conns =>
          ⟨Manager.isSessionCreate cfg cbNum, conns⟩] }

/-- One call after the other. -/
def Globals.createAll (a : Allocator) (cfg : Config) (g : Globals) (creations : List Creation) :
    Except PortalFault Globals :=
  creations.foldlM (Globals.isSessionCreate a cfg) g

/-! ## What a mapping round looks at -/

/-- What the selection of `IS_single_chunk_map` does with the servers: the entries of
`cb_state_list` that the loop over `avail_cb`, the list branch and the `while` read, and
the number a random one is reduced by. -/
inductive Access where
  | counted (b : Nat)
  | listed (b : Nat)
  | drawn (n : Nat)
  | probed (b : Nat)
  deriving DecidableEq, Repr

/-- The `while` reads up to the entry it stops at. -/
def probeAccesses (numCb start : Nat) (s : Session) (chosen : List Nat) : List Access :=
  let ring := (List.range numCb).map fun k => (start + k) % numCb
  (ring.take (ring.findIdx (fun b => (s.cbStateList b).selectable && !chosen.contains b) + 1)).map
    .probed

/-- The random branch, `count` servers still to draw. -/
def drawAccesses (numCb : Nat) (random : Nat → Nat) (s : Session) : Nat → List Nat → List Access
  | 0, _ => []
  | count + 1, chosen =>
      let start := random chosen.length % numCb
      .drawn numCb :: probeAccesses numCb start s chosen ++
        match probeServer numCb start s chosen with
        | none => []
        | some b => drawAccesses numCb random s count (chosen ++ [b])

/-- The selection of `IS_single_chunk_map`. -/
def selectAccesses (cfg : Config) (numCb : Nat) (random : Nat → Nat) (s : Session) :
    List Access :=
  (List.range numCb).map .counted ++
    if (selectableServers numCb s).length ≤ cfg.serverSelectNum then
      (List.range s.cbNum).map .listed
    else drawAccesses numCb random s cfg.serverSelectNum []

/-- The accesses of a session with `n` servers are to exactly these. -/
structure OwnServers (n : Nat) (l : List Access) : Prop where
  counted : ∀ b, .counted b ∈ l ↔ b < n
  listed : ∀ b, .listed b ∈ l → b < n
  drawn : ∀ m, .drawn m ∈ l → m = n
  probed : ∀ b, .probed b ∈ l → b < n

/-! ## Destroying a session -/

/-- `IS_destroy_conn` of a slot outside `IS_conns`, or of `NULL`. -/
inductive DestroyFault where
  | outside (i : Nat)
  | null (i : Nat)
  deriving DecidableEq, Repr

/-- The loop of `IS_session_destroy` from slot `i` on, with `count` turns to go: the
connections destroyed. -/
def destroyConns : Nat → Nat → List (Option IsConnection) →
    Except DestroyFault (List IsConnection)
  | 0, _, _ => .ok []
  | count + 1, i, conns =>
      match conns[i]? with
      | none => .error (.outside i)
      | some none => .error (.null i)
      | some (some conn) =>
          match destroyConns count (i + 1) (conns.set i none) with
          | .error e => .error e
          | .ok more => .ok (conn :: more)

/-- `IS_session_destroy`, its connections. -/
def isSessionDestroy (o : OpenSession) : Except DestroyFault (List IsConnection) :=
  destroyConns o.session.cbNum 0 o.isConns

/-- It destroys the connections made for session `k`, and no others. -/
def DestroysOwn (submitQueues k : Nat) (o : OpenSession) : Prop :=
  isSessionDestroy o = .ok ((List.range submitQueues).map fun cpu => ⟨k, cpu⟩)

/-! ## Portal lists -/

theorem sessionPortals_portalString (a : Allocator) (p : PortalString) :
    ∃ r, sessionPortals a (rdmaScheme ++ p.text) = .ok r ∧ r.cbNum.toInt.toNat = p.servers := by
  have hfits := p.fits
  obtain ⟨r, hr⟩ := (portalParser_total (a := a) (by omega)).mpr p.entries
  refine ⟨r, ?_, ?_⟩
  · rw [sessionPortals, if_neg (by rw [List.length_append]; omega), List.drop_left, hr]
  · rw [portalParser_cbNum hr, PortalString.servers]

/-- What `nbdxadm` makes of the file of some servers is well formed. -/
def PortalString.ofServers (servers : List Server)
    (fits : rdmaScheme.length + (joinFields comma (fileFields servers)).length + 1 ≤
      maxPortalName) : PortalString where
  text := joinFields comma (fileFields servers)
  fits := fits
  count := by
    obtain ⟨p, hp, hcount, -⟩ := portalParser_fields kmalloc (length_servers_le fits)
    rw [← portalParser_cbNum hp, hcount]
    omega
  entries := by
    obtain ⟨p, hp, -⟩ := portalParser_fields kmalloc (length_servers_le fits)
    exact (portalParser_total (by omega)).mp ⟨p, hp⟩

theorem PortalString.servers_ofServers {servers : List Server}
    {fits : rdmaScheme.length + (joinFields comma (fileFields servers)).length + 1 ≤
      maxPortalName} : (PortalString.ofServers servers fits).servers = servers.length := by
  obtain ⟨p, hp, hcount, -⟩ := portalParser_fields kmalloc (length_servers_le fits)
  have hnum : (portalCount (joinFields comma (fileFields servers))).toInt = servers.length := by
    rw [← portalParser_cbNum hp, hcount]
  rw [PortalString.servers, PortalString.ofServers, hnum, Int.toNat_natCast]

/-! ## The sessions created -/

section Create

variable {cfg : Config}

/-- The session of a call, the `k`-th. -/
def opened (cfg : Config) (submitQueues k : Nat) (c : Creation) : Option OpenSession :=
  (if c.array then createConns c.conn k submitQueues 0 else none).map fun conns =>
    ⟨isSessionCreate cfg c.portal.servers, conns⟩

theorem isSessionCreate_eq (a : Allocator) (g : Globals) (c : Creation) :
    g.isSessionCreate a cfg c = .ok { g with
      numCb := c.portal.servers
      sessions := g.sessions ++ [opened cfg g.submitQueues g.sessions.length c] } := by
  obtain ⟨p, hp, hnum⟩ := sessionPortals_portalString a c.portal
  simp only [Globals.isSessionCreate, hp, hnum, opened]

/-- Every call leaves the sessions before it as they are, and `NUM_CB` is that of the
last. -/
theorem createAll_eq (a : Allocator) (g : Globals) (creations : List Creation) :
    g.createAll a cfg creations = .ok { g with
      numCb := (creations.getLast?.map fun c => c.portal.servers).getD g.numCb
      sessions := g.sessions ++ creations.mapIdx fun k c =>
        opened cfg g.submitQueues (g.sessions.length + k) c } := by
  induction creations generalizing g with
  | nil => simp [Globals.createAll, pure, Except.pure]
  | cons c creations ih =>
      have hrest : g.createAll a cfg (c :: creations) = Globals.createAll a cfg { g with
          numCb := c.portal.servers
          sessions := g.sessions ++ [opened cfg g.submitQueues g.sessions.length c] }
          creations := by
        rw [Globals.createAll, List.foldlM_cons, isSessionCreate_eq]
        rfl
      rw [hrest, ih]
      congr 1
      simp only [List.getLast?_cons, List.mapIdx_cons, List.length_append, List.length_singleton,
        List.append_assoc, List.singleton_append, Nat.add_zero, Option.map_some, Option.getD_some,
        Nat.add_assoc, Nat.add_comm 1]
      cases creations.getLast? <;> rfl

theorem createConns_eq {conn : Nat → Bool} {sess count cpu : Nat}
    {conns : List (Option IsConnection)} (h : createConns conn sess count cpu = some conns) :
    conns = (List.range' cpu count).map fun i => some ⟨sess, i⟩ := by
  induction count generalizing cpu conns with
  | zero =>
      obtain rfl := Option.some.inj h
      rfl
  | succ count ih =>
      obtain ⟨c, hc, hrest⟩ := Option.bind_eq_some_iff.mp h
      obtain ⟨more, hmore, rfl⟩ := Option.map_eq_some_iff.mp hrest
      have hconn : c = ⟨sess, cpu⟩ := by
        unfold isCreateConn at hc
        split at hc
        · exact (Option.some.inj hc).symm
        · cases hc
      rw [ih hmore, hconn, List.range'_succ, List.map_cons]

/-- A session that is created has its own number of servers and a connection for every
CPU. -/
theorem opened_eq_some {submitQueues k : Nat} {c : Creation} {o : OpenSession}
    (h : opened cfg submitQueues k c = some o) :
    o.session = isSessionCreate cfg c.portal.servers ∧
      o.isConns = (List.range submitQueues).map fun cpu => some ⟨k, cpu⟩ := by
  obtain ⟨conns, hconns, rfl⟩ := Option.map_eq_some_iff.mp h
  split at hconns
  · refine ⟨rfl, ?_⟩
    rw [List.range_eq_range']
    exact createConns_eq hconns
  · cases hconns

end Create

/-! ## Mapping -/

section Map

variable {cfg : Config} {numCb : Nat} {random : Nat → Nat} {s : Session}

/-- An access as `NUM_CB` bounds it; the list branch goes by the session's own number. -/
def Access.Within (numCb cbNum : Nat) : Access → Prop
  | .counted b => b < numCb
  | .listed b => b < cbNum
  | .drawn n => n = numCb
  | .probed b => b < numCb

theorem within_of_mem_probeAccesses {start cbNum : Nat} {chosen : List Nat} {x : Access}
    (h : x ∈ probeAccesses numCb start s chosen) : x.Within numCb cbNum := by
  obtain ⟨b, hb, rfl⟩ := List.mem_map.mp h
  obtain ⟨k, hk, rfl⟩ := List.mem_map.mp (List.mem_of_mem_take hb)
  have hk := List.mem_range.mp hk
  exact Nat.mod_lt _ (by omega)

theorem within_of_mem_drawAccesses {count cbNum : Nat} {chosen : List Nat} {x : Access}
    (h : x ∈ drawAccesses numCb random s count chosen) : x.Within numCb cbNum := by
  induction count generalizing chosen with
  | zero => cases h
  | succ count ih =>
      rw [drawAccesses, List.mem_append, List.mem_cons] at h
      rcases h with (rfl | h) | h
      · rfl
      · exact within_of_mem_probeAccesses h
      · split at h
        · cases h
        · exact ih h

theorem within_of_mem_selectAccesses {x : Access} (h : x ∈ selectAccesses cfg numCb random s) :
    x.Within numCb s.cbNum := by
  rcases List.mem_append.mp h with h | h
  · obtain ⟨b, hb, rfl⟩ := List.mem_map.mp h
    exact List.mem_range.mp hb
  · split at h
    · obtain ⟨b, hb, rfl⟩ := List.mem_map.mp h
      exact List.mem_range.mp hb
    · exact within_of_mem_drawAccesses h

theorem counted_mem_selectAccesses {b : Nat} :
    .counted b ∈ selectAccesses cfg numCb random s ↔ b < numCb := by
  constructor
  · exact fun h => within_of_mem_selectAccesses h
  · intro hb
    exact List.mem_append_left _ (List.mem_map.mpr ⟨b, List.mem_range.mpr hb, rfl⟩)

/-- A round keeps to the servers of its session exactly when `NUM_CB` is their number:
otherwise it counts too many or too few. -/
theorem ownServers_iff :
    OwnServers s.cbNum (selectAccesses cfg numCb random s) ↔ numCb = s.cbNum := by
  constructor
  · intro h
    have hsame : ∀ b, b < numCb ↔ b < s.cbNum := by
      intro b
      rw [← h.counted b, counted_mem_selectAccesses]
    have hle := hsame numCb
    have hge := hsame s.cbNum
    omega
  · rintro rfl
    exact
      { counted := fun b => counted_mem_selectAccesses
        listed := fun b hb => within_of_mem_selectAccesses hb
        drawn := fun m hm => within_of_mem_selectAccesses hm
        probed := fun b hb => within_of_mem_selectAccesses hb }

end Map

/-! ## Destroying -/

/-- The loop over an array of `n` connections, those before `i` destroyed already. -/
theorem destroyConns_eq {n : Nat} {f : Nat → IsConnection} {count i : Nat}
    {conns : List (Option IsConnection)} (hi : i ≤ n) (hlen : conns.length = n)
    (hconns : ∀ j, i ≤ j → j < n → conns[j]? = some (some (f j))) :
    destroyConns count i conns =
      if i + count ≤ n then .ok ((List.range' i count).map f) else .error (.outside n) := by
  induction count generalizing i conns with
  | zero => exact (if_pos hi).symm
  | succ count ih =>
      rw [destroyConns]
      by_cases hlast : i = n
      · rw [List.getElem?_eq_none (by omega), if_neg (by omega), hlast]
      · rw [hconns i (by omega) (by omega)]
        have hset : ∀ j, i + 1 ≤ j → j < n → (conns.set i none)[j]? = some (some (f j)) := by
          intro j hij hj
          rw [List.getElem?_set_ne (by omega), hconns j (by omega) hj]
        simp only [ih (by omega) (by rw [List.length_set, hlen]) hset, List.range'_succ,
          List.map_cons]
        by_cases hle : i + 1 + count ≤ n
        · rw [if_pos hle, if_pos (by omega)]
        · rw [if_neg hle, if_neg (by omega)]

/-- A session is destroyed as it was made exactly when it has as many servers as there are
CPUs: with more the loop leaves `IS_conns`, with fewer connections stay. -/
theorem destroysOwn_iff {submitQueues k : Nat} {o : OpenSession}
    (hconns : o.isConns = (List.range submitQueues).map fun cpu => some ⟨k, cpu⟩) :
    DestroysOwn submitQueues k o ↔ o.session.cbNum = submitQueues := by
  have hget : ∀ j, 0 ≤ j → j < submitQueues → o.isConns[j]? = some (some ⟨k, j⟩) := by
    intro j _ hj
    rw [hconns, List.getElem?_map, List.getElem?_range hj]
    rfl
  have hlen : o.isConns.length = submitQueues := by
    rw [hconns, List.length_map, List.length_range]
  unfold DestroysOwn isSessionDestroy
  rw [destroyConns_eq (Nat.zero_le _) hlen hget, Nat.zero_add, ← List.range_eq_range']
  constructor
  · intro h
    split at h
    · have hlength := congrArg List.length (Except.ok.inj h)
      simpa using hlength
    · cases h
  · intro h
    rw [if_pos (by omega), h]

/-! ## Sessions and each other -/

/-- After any calls of `IS_session_create`, a session that was created maps over its own
servers exactly when it has as many as the portal of the last call, and is destroyed as it
was made exactly when it has as many as there are submit queues. -/
theorem sessions_undisturbed_iff (a : Allocator) (cfg : Config) (submitQueues : Nat)
    (creations : List Creation) :
    ∃ g, (Globals.init submitQueues).createAll a cfg creations = .ok g ∧
      ∀ k o, g.sessions[k]? = some (some o) →
        ∃ c last, creations[k]? = some c ∧ creations.getLast? = some last ∧
          (∀ random states,
            OwnServers c.portal.servers (selectAccesses cfg g.numCb random
                { o.session with cbStateList := states }) ↔
              c.portal.servers = last.portal.servers) ∧
          (DestroysOwn submitQueues k o ↔ c.portal.servers = submitQueues) := by
  refine ⟨_, createAll_eq a _ creations, ?_⟩
  intro k o ho
  simp only [Globals.init, List.nil_append, List.length_nil, Nat.zero_add, List.getElem?_mapIdx]
    at ho ⊢
  obtain ⟨c, hc, hopened⟩ := Option.map_eq_some_iff.mp ho
  obtain ⟨hsession, hconns⟩ := opened_eq_some hopened
  obtain ⟨last, hlast⟩ : ∃ last, creations.getLast? = some last := by
    cases hnone : creations.getLast? with
    | none =>
        rw [List.getLast?_eq_none_iff.mp hnone] at hc
        cases hc
    | some last => exact ⟨last, rfl⟩
  refine ⟨c, last, hc, hlast, ?_, ?_⟩
  · intro random states
    rw [hlast, hsession, eq_comm (a := c.portal.servers)]
    exact ownServers_iff (s := { isSessionCreate cfg c.portal.servers with cbStateList := states })
  · rw [destroysOwn_iff hconns, hsession]
    rfl

/-- A session with one server. -/
def firstCreation : Creation :=
  ⟨.ofServers (twoServers.take 1) (by decide), true, fun _ => true⟩

/-- A session with two. -/
def secondCreation : Creation := ⟨.ofServers twoServers (by decide), true, fun _ => true⟩

/-- Both, and one CPU: a round of the first counts two servers, and destroying the second
goes on behind its only connection. -/
theorem sessions_disturbed :
    firstCreation.portal.servers = 1 ∧ secondCreation.portal.servers = 2 ∧
    ∃ g first second,
      (Globals.init 1).createAll kmalloc Config.rep [firstCreation, secondCreation] = .ok g ∧
      g.sessions = [some first, some second] ∧
      ¬ OwnServers 1 (selectAccesses Config.rep g.numCb id first.session) ∧
      isSessionDestroy second = .error (.outside 1) ∧ ¬ DestroysOwn 1 1 second := by
  refine ⟨PortalString.servers_ofServers, PortalString.servers_ofServers, _, _, _,
    createAll_eq .., rfl, ?_, rfl, ?_⟩
  · intro h
    have hcount : 2 = 1 := (ownServers_iff (s := isSessionCreate Config.rep 1)).mp h
    cases hcount
  · intro h
    cases h

end Hydra.Manager
