/-
  DataPath/Path.lean --- block requests, RDMA contexts and completions.

  Source: `IS_request` of `resilience_manager/is_mq.c`, and of `is_main.c`
  `IS_get_ctx`, `IS_insert_ctx`, `IS_rdma_read`, `IS_rdma_write`,
  `IS_transfer_chunk`, `rdma_cq_event_handler`, `client_read_done`,
  `client_write_done`, `IS_ctx_init`, `IS_ctx_dma_setup` and the part of
  `IS_disconnect_handler` that looks after requests in flight.

  The model is one for both builds.  What differs is what goes into the buffers of
  a write and how the page of a read is put together from them; both are fields of
  `Build`.

  A result `none` is a null pointer, an array index out of range or a loop that
  does not end.
-/
import Hydra.Foundation.Lending
import Hydra.Foundation.Run
import Hydra.Manager.KernelCb

set_option autoImplicit false

namespace Hydra.DataPath

open Hydra.Foundation Hydra.Wire Hydra.Manager

variable {Data : Type}

/-! ## The build -/

/-- The constants of a build and its coding of pages.  `assemble` gets
`src_err_list` and, for the contexts of the request, faults and buffers. -/
structure Build (Data : Type) where
  ndatas : Nat
  ndisks : Nat
  submitQueues : Nat
  queueDepth : Nat
  numCb : Nat
  piece : Data → Nat → Data
  assemble : List Nat → List Bool → List Data → Option Data
  ndatas_pos : 0 < ndatas
  ndatas_le : ndatas ≤ ndisks

/-- The context the `REP` branch of `client_read_done` copies from: the first one
without a fault. -/
def copySource (faults : List Bool) : Option Nat := faults.findIdx? fun fault => !fault

theorem one_le_three : 1 ≤ 3 := by decide

/-- The replication setup: every buffer is the page. -/
def Build.rep (Data : Type) (submitQueues numCb : Nat) : Build Data where
  ndatas := 1
  ndisks := 3
  submitQueues := submitQueues
  queueDepth := 256
  numCb := numCb
  piece := fun page _ => page
  assemble := fun _ faults bufs => (copySource faults).bind fun j => bufs[j]?
  ndatas_pos := by decide
  ndatas_le := one_le_three

/-! ## Contexts and requests -/

/-- A context pool: `IS_conns[conn]->ctx_pools[server]`. -/
structure Pool where
  conn : Nat
  server : Nat
  deriving DecidableEq, Repr

/-- A context: its pool and its place in `ctx_pool`. -/
structure CtxId where
  pool : Pool
  idx : Nat
  deriving DecidableEq, Repr

/-- `ctx->in_flight`. -/
inductive InFlight where
  | idle | read | write
  deriving DecidableEq, Repr

/-- A request of the block layer: one page of a slab.  `connId` is
`bio_data(req->bio) & QUEUE_NUM_MASK`; `data` is what a write brings. -/
structure Request (Data : Type) where
  id : Nat
  write : Bool
  slab : Nat
  offset : Nat
  data : Data
  connId : Nat

/-- `struct rdma_ctx`.  `cnt` names the counter of the request, `ctxs` the contexts
that were taken together. -/
structure Ctx (Data : Type) where
  inFlight : InFlight
  req : Option (Request Data)
  chunkIndex : Option ChunkIx
  cnt : Nat
  ctxs : List CtxId
  fault : Bool
  rdmaBuf : Data

/-- A posted work request: where it goes and which piece of the request it is. -/
structure Op where
  server : Nat
  ctx : CtxId
  write : Bool
  chunk : ChunkIx
  offset : Nat
  index : Nat
  deriving DecidableEq, Repr

/-- The cell of remote memory an operation reads or writes. -/
def Op.cell (o : Op) : Nat × ChunkIx × Nat := (o.server, o.chunk, o.offset)

/-- What the block layer sees.  The end of a read carries the page delivered, the
faults of its contexts and the piece whose completion ended it. -/
inductive Event (Data : Type) where
  | submit (r : Request Data)
  | endWrite (r : Request Data)
  | endRead (r : Request Data) (page : Data) (faults : List Bool) (index : Nat)

/-- The data path.  `map` is the slab map as `IS_request` looks it up, `ready` says of
which servers the pools have been set up, `free` is the free list of each pool with its
tail first, `wire` the posted operations with the oldest first, `executed` how many of a
server's oldest operations wait in its completion queue, `lost` is `src_err_list` and
`scan` what disconnect handlers have still to look at.  `trace` has the last event
first. -/
structure Path (Data : Type) where
  map : Nat → Option (Nat × ChunkIx)
  cbState : Nat → CbState
  ready : Nat → Bool
  free : Pool → List CtxId
  ctx : CtxId → Ctx Data
  count : Nat → Int
  nextCount : Nat
  wire : List Op
  executed : Nat → Nat
  mem : Nat × ChunkIx × Nat → Data
  lost : List Nat
  scan : List CtxId
  nextReq : Nat
  trace : List (Event Data)

/-! ## Reads and writes -/

/-- The pools a request takes its contexts from: the server's for a mapped piece,
for an unmapped one the pool numbered like the piece. -/
def poolsFor (B : Build Data) (r : Request Data) (place : Nat → Option (Nat × ChunkIx)) :
    List Pool :=
  (List.range B.ndisks).map fun i => ⟨r.connId, ((place i).map Prod.fst).getD i⟩

/-- What `IS_rdma_read` writes into the context of piece `i`. -/
def readCtx (r : Request Data) (cnt : Nat) (place : Nat → Option (Nat × ChunkIx))
    (fault : Nat → Bool) (ids : List CtxId) (i : Nat) (x : Ctx Data) : Ctx Data :=
  if (place i).isSome then
    { x with inFlight := .read, req := some r, cnt := cnt, ctxs := ids, fault := fault i }
  else { x with ctxs := ids, fault := fault i }

/-- What `IS_rdma_write` writes into the context of piece `i`.  `in_flight` is not
set. -/
def writeCtx (B : Build Data) (r : Request Data) (cnt : Nat)
    (place : Nat → Option (Nat × ChunkIx)) (i : Nat) (x : Ctx Data) : Ctx Data :=
  match place i with
  | some e =>
      { x with req := some r, cnt := cnt, chunkIndex := some e.2, rdmaBuf := B.piece r.data i }
  | none => { x with rdmaBuf := B.piece r.data i }

/-- The piece is mapped and its context has no fault. -/
def good (ctx : CtxId → Ctx Data) (place : Nat → Option (Nat × ChunkIx)) (ids : List CtxId)
    (i : Nat) : Bool :=
  (place i).isSome && (ids[i]?.map fun c => !(ctx c).fault).getD false

/-- The posting loop of `IS_rdma_read`: a data piece that is not good is replaced by
the next good parity. -/
def readTargets (isGood : Nat → Bool) (ndisks : Nat) : List Nat → Nat → Option (List Nat)
  | [], _ => some []
  | i :: rest, j =>
      if isGood i then (readTargets isGood ndisks rest j).map (i :: ·)
      else
        match (List.range' j (ndisks - j)).find? isGood with
        | none => none
        | some p => (readTargets isGood ndisks rest (p + 1)).map (p :: ·)

/-- The work requests posted for some pieces; unmapped ones are passed over. -/
def posts (place : Nat → Option (Nat × ChunkIx)) (ids : List CtxId) (r : Request Data)
    (pieces : List Nat) : List Op :=
  pieces.filterMap fun i =>
    (place i).bind fun e => ids[i]?.map fun c => ⟨e.1, c, r.write, e.2, r.offset, i⟩

/-- The contexts of the unmapped pieces. -/
def unmappedCtxs (place : Nat → Option (Nat × ChunkIx)) (ids : List CtxId) : List CtxId :=
  (ids.zipIdx.filter fun e => (place e.2).isNone).map Prod.fst

/-- Both transfers end alike: the contexts have been written, the countdown starts at
`NDATAS` and some pieces are posted. -/
def postPieces (B : Build Data) (s : Path Data) (r : Request Data)
    (place : Nat → Option (Nat × ChunkIx)) (write : Nat → Ctx Data → Ctx Data)
    (ids : List CtxId) (free : Pool → List CtxId) (pieces : List Nat) : Path Data :=
  { s with
    free := free
    ctx := updateEach write ids.zipIdx s.ctx
    count := Function.update s.count s.nextCount B.ndatas
    nextCount := s.nextCount + 1
    wire := s.wire ++ posts place ids r pieces }

/-- `IS_rdma_read`.  The fault message to an unmapped piece goes through a pointer
that was never set. -/
def isRdmaRead (B : Build Data) (s : Path Data) (r : Request Data)
    (place : Nat → Option (Nat × ChunkIx)) (fault : Nat → Bool) : Option (Path Data) :=
  (takeEach s.free (poolsFor B r place)).bind fun out =>
    if ∃ i ∈ List.range B.ndisks, fault i = true ∧ place i = none then none
    else
      let write := readCtx r s.nextCount place fault out.1
      (readTargets (good (updateEach write out.1.zipIdx s.ctx) place out.1) B.ndisks
        (List.range B.ndatas) B.ndatas).map
          (postPieces B s r place write out.1 out.2)

/-- `IS_rdma_write`.  Data and parity go to every mapped piece, and the contexts of
the unmapped ones are returned at the end. -/
def isRdmaWrite (B : Build Data) (s : Path Data) (r : Request Data)
    (place : Nat → Option (Nat × ChunkIx)) : Option (Path Data) :=
  (takeEach s.free (poolsFor B r place)).map fun out =>
    postPieces B s r place (writeCtx B r s.nextCount place) out.1
      (putBack CtxId.pool (unmappedCtxs place out.1) out.2) (List.range B.ndisks)

/-- `IS_transfer_chunk`. -/
def isTransferChunk (B : Build Data) (s : Path Data) (r : Request Data)
    (place : Nat → Option (Nat × ChunkIx)) (fault : Nat → Bool) : Option (Path Data) :=
  if r.write then isRdmaWrite B s r place else isRdmaRead B s r place fault

/-- Where the pieces of a slab are, as `IS_request` looks them up. -/
def Path.place (B : Build Data) (s : Path Data) (slab : Nat) : Nat → Option (Nat × ChunkIx) :=
  fun i => s.map (slab * B.ndisks + i)

/-- `IS_request`. -/
def isRequest (B : Build Data) (s : Path Data) (r : Request Data) (fault : Nat → Bool) :
    Option (Path Data) :=
  isTransferChunk B s r (s.place B r.slab) fault

/-! ## Completions -/

/-- `client_read_done`. -/
def clientReadDone (B : Build Data) (s : Path Data) (o : Op) : Option (Path Data) :=
  let x := s.ctx o.ctx
  x.req.bind fun r =>
    let ctx := Function.update s.ctx o.ctx
      { x with inFlight := .idle, chunkIndex := none, req := none }
    let count := Function.update s.count x.cnt (s.count x.cnt - 1)
    if s.count x.cnt - 1 = 0 then
      let faults := x.ctxs.map fun c => (ctx c).fault
      (B.assemble s.lost faults (x.ctxs.map fun c => (ctx c).rdmaBuf)).map fun page =>
        { s with
          ctx := ctx
          count := count
          trace := .endRead r page faults o.index :: s.trace
          free := putBack CtxId.pool x.ctxs s.free }
    else some { s with ctx := ctx, count := count }

/-- `client_write_done`. -/
def clientWriteDone (s : Path Data) (o : Op) : Option (Path Data) :=
  let x := s.ctx o.ctx
  let trace :=
    if s.count x.cnt - 1 = 0 then x.req.map fun r => .endWrite r :: s.trace else some s.trace
  trace.map fun trace =>
    { s with
      ctx := Function.update s.ctx o.ctx
        { x with inFlight := .idle, chunkIndex := none, req := none }
      count := Function.update s.count x.cnt (s.count x.cnt - 1)
      trace := trace
      free := putBack CtxId.pool [o.ctx] s.free }

/-- `rdma_cq_event_handler` for one completion of server `b`. -/
def rdmaCqEventHandler (B : Build Data) (s : Path Data) (b : Nat) : Option (Path Data) :=
  if s.executed b = 0 ∨ s.cbState b = .fail then none
  else
    (s.wire.find? fun o => decide (o.server = b)).bind fun o =>
      let s :=
        { s with
          wire := s.wire.eraseP fun o => decide (o.server = b)
          executed := Function.update s.executed b (s.executed b - 1) }
      if o.write then clientWriteDone s o else clientReadDone B s o

/-- The adapter executes the next operation of the queue pair of `b`. -/
def execute (s : Path Data) (b : Nat) : Option (Path Data) :=
  ((s.wire.filter fun o => decide (o.server = b))[s.executed b]?).map fun o =>
    let s := { s with executed := Function.update s.executed b (s.executed b + 1) }
    if o.write then { s with mem := Function.update s.mem o.cell (s.ctx o.ctx).rdmaBuf }
    else
      { s with
        ctx := Function.update s.ctx o.ctx { s.ctx o.ctx with rdmaBuf := s.mem o.cell } }

/-! ## Losing a server -/

/-- The contexts of a server's pools, in the order a loop over them takes. -/
def poolCtxs (B : Build Data) (b : Nat) : List CtxId :=
  (List.range B.submitQueues).flatMap fun k =>
    (List.range B.queueDepth).map fun j => ⟨⟨k, b⟩, j⟩

/-- `src_err_list` as `IS_disconnect_handler` computes it. -/
def srcErrList (B : Build Data) (map : Nat → Option (Nat × ChunkIx)) (cbState : Nat → CbState) :
    List Nat :=
  ((List.range B.ndisks).filter fun i =>
    match map i with
    | none => true
    | some e => decide (cbState e.1 = .fail)).take (B.ndisks - B.ndatas)

/-- `IS_disconnect_handler` up to the loop over the contexts.  The operations posted
to the server are flushed, and no completion of a failed server is looked at.  The loop
needs the server's pools. -/
def isDisconnectHandler (B : Build Data) (s : Path Data) (b : Nat) : Option (Path Data) :=
  let cbState := Function.update s.cbState b .fail
  let wire := s.wire.filter fun o => !decide (o.server = b)
  let executed := Function.update s.executed b 0
  if s.cbState b = .fail then none
  else if s.cbState b = .connected then
    some { s with cbState := cbState, wire := wire, executed := executed }
  else if s.ready b = false then none
  else
    some
      { s with
        cbState := cbState
        wire := wire
        executed := executed
        lost := srcErrList B s.map cbState
        map := fun i => (s.map i).bind fun e => if e.1 = b then none else some e
        scan := s.scan ++ poolCtxs B b }

/-- One turn of the loop over the contexts of `b`: a read in flight is returned and
its request issued again. -/
def scanCtx (B : Build Data) (s : Path Data) (b : Nat) (fault : Nat → Bool) :
    Option (Path Data) :=
  (s.scan.find? fun c => decide (c.pool.server = b)).bind fun c =>
    let s := { s with scan := s.scan.eraseP fun c => decide (c.pool.server = b) }
    match (s.ctx c).inFlight with
    | .idle => some s
    | .write => some { s with free := putBack CtxId.pool [c] s.free }
    | .read =>
        (s.ctx c).req.bind fun r =>
          isRequest B { s with free := putBack CtxId.pool [c] s.free } r fault

/-! ## Setting up a server -/

/-- The free list of a pool as `IS_ctx_init` leaves it. -/
def isCtxInit (B : Build Data) (p : Pool) : List CtxId :=
  (List.range B.queueDepth).reverse.map fun j => ⟨p, j⟩

/-- `IS_ctx_dma_setup`: `IS_ctx_init` for the pool of every connection.  Nobody has had one
of these contexts before, so they are as `blankCtx` says. -/
def isCtxDmaSetup (B : Build Data) (s : Path Data) (b : Nat) : Path Data :=
  { s with
    ready := Function.update s.ready b true
    free := fun p =>
      if p.server = b ∧ p.conn < B.submitQueues then isCtxInit B p else s.free p }

/-! ## Steps -/

/-- What can happen next.  `setUp`, `bind` and `unbind` are what mapping and eviction
rounds do: a server that has been connected is set up and then bound. -/
inductive Action (Data : Type) where
  | submit (r : Request Data) (fault : Nat → Bool)
  | execute (b : Nat)
  | poll (b : Nat)
  | disconnect (b : Nat)
  | scan (b : Nat) (fault : Nat → Bool)
  | setUp (b : Nat)
  | bind (i b : Nat) (chunk : ChunkIx)
  | unbind (i : Nat)

/-- One step.  A request gets the next number. -/
def step (B : Build Data) (s : Path Data) : Action Data → Option (Path Data)
  | .submit r fault =>
      let r := { r with id := s.nextReq }
      isRequest B { s with nextReq := s.nextReq + 1, trace := .submit r :: s.trace } r fault
  | .execute b => execute s b
  | .poll b => rdmaCqEventHandler B s b
  | .disconnect b => isDisconnectHandler B s b
  | .scan b fault => scanCtx B s b fault
  | .setUp b =>
      if (s.cbState b = .idle ∨ s.cbState b = .connected) ∧ s.ready b = false ∧ b < B.numCb then
        some { isCtxDmaSetup B s b with cbState := Function.update s.cbState b .connected }
      else none
  | .bind i b chunk =>
      if (s.cbState b).selectable = true ∧ s.ready b = true then
        some
          { s with
            map := Function.update s.map i (some (b, chunk))
            cbState := Function.update s.cbState b .mapped }
      else none
  | .unbind i => some { s with map := Function.update s.map i none }

/-- A context as `IS_ctx_init` leaves it. -/
def blankCtx [Zero Data] : Ctx Data where
  inFlight := .idle
  req := none
  chunkIndex := none
  cnt := 0
  ctxs := []
  fault := false
  rdmaBuf := 0

/-- The data path before the first request.  The pools of the servers that have been
bound are as `IS_ctx_init` leaves them; the others have none. -/
def pathInit [Zero Data] (B : Build Data) (map : Nat → Option (Nat × ChunkIx))
    (cbState : Nat → CbState) (ready : Nat → Bool) (mem : Nat × ChunkIx × Nat → Data) :
    Path Data where
  map := map
  cbState := cbState
  ready := ready
  free := fun p =>
    if p.conn < B.submitQueues ∧ p.server < B.numCb ∧ ready p.server = true then isCtxInit B p
    else []
  ctx := fun _ => blankCtx
  count := fun _ => 0
  nextCount := 0
  wire := []
  executed := fun _ => 0
  mem := mem
  lost := []
  scan := []
  nextReq := 0
  trace := []

/-- The slab map names servers that have been bound and not lost. -/
def MapsServing (map : Nat → Option (Nat × ChunkIx)) (cbState : Nat → CbState) : Prop :=
  ∀ i b c, map i = some (b, c) → cbState b = .mapped ∨ cbState b = .evicting

end Hydra.DataPath
