/-
  Wire/Layout.lean --- the control message as bytes.

  Source: `struct IS_rdma_info` of `resilience_manager/infiniswap.h`, `struct message` of
  `resource_monitor/rdma-common.h`, and the scatter lists of `IS_setup_wr` and
  `send_message`, which send `sizeof` the structure.

  The two programs declare the message each for itself and never convert it.  What one of
  them assigns, member by member, is what the other reads after a send, and the bytes sent
  are those of the members: there is no padding that could carry old memory along.
-/
import Hydra.Foundation.Bytes
import Hydra.Wire.Message

set_option autoImplicit false

namespace Hydra.Wire

open Hydra.Foundation

/-! ## The two declarations -/

/-- The members of the message. -/
inductive MessageField where
  | buf | rkey | sizeGb | type
  deriving DecidableEq, Repr

/-- A declaration: the members in order, and the names of the `enum`, the first of which
is 1. -/
structure MessageDecl where
  members : List (MessageField × Member)
  types : List MsgType

/-- `struct IS_rdma_info`. -/
def isRdmaInfo : MessageDecl where
  members := [(.buf, ⟨8, 8, 32⟩), (.rkey, ⟨4, 4, 32⟩), (.sizeGb, ⟨4, 4, 1⟩), (.type, ⟨4, 4, 1⟩)]
  types :=
    [.done, .info, .infoSingle, .freeSize, .evict, .activity, .stop, .bind, .bindSingle, .query,
      .fault, .faultDone]

/-- `struct message`. -/
def messageStruct : MessageDecl where
  members := [(.buf, ⟨8, 8, 32⟩), (.rkey, ⟨4, 4, 32⟩), (.sizeGb, ⟨4, 4, 1⟩), (.type, ⟨4, 4, 1⟩)]
  types :=
    [.done, .info, .infoSingle, .freeSize, .evict, .activity, .stop, .bind, .bindSingle, .query,
      .fault, .faultDone]

/-- What one assignment of the code goes to. -/
inductive Slot where
  | buf (i : ChunkIx)
  | rkey (i : ChunkIx)
  | sizeGb
  | type
  deriving DecidableEq, Repr

namespace Slot

/-- The member it is in. -/
def field : Slot → MessageField
  | .buf _ => .buf
  | .rkey _ => .rkey
  | .sizeGb => .sizeGb
  | .type => .type

/-- The size of its type: `uint64_t`, `uint32_t`, `int` or the `enum`. -/
def size : Slot → Nat
  | .buf _ => 8
  | .rkey _ | .sizeGb | .type => 4

/-- Its place in the array. -/
def index : Slot → Nat
  | .buf i | .rkey i => i
  | .sizeGb | .type => 0

/-- Where a slot of a message without padding begins. -/
def place : Slot → Nat
  | .buf i => 8 * i
  | .rkey i => 256 + 4 * i
  | .sizeGb => 384
  | .type => 388

end Slot

/-- An assignment to a member or an element. -/
inductive Assignment where
  | buf (i : ChunkIx) (value : UInt64)
  | rkey (i : ChunkIx) (value : UInt32)
  | sizeGb (value : Int32)
  | type (value : MsgType)
  deriving DecidableEq, Repr

/-- The slot it is to. -/
def Assignment.slot : Assignment → Slot
  | .buf i _ => .buf i
  | .rkey i _ => .rkey i
  | .sizeGb _ => .sizeGb
  | .type _ => .type

/-- What a program finds in its structure. -/
@[ext] structure RawMessage where
  buf : ChunkIx → UInt64
  rkey : ChunkIx → UInt32
  sizeGb : Int32
  type : UInt32

namespace MessageDecl

variable (d : MessageDecl)

/-- Where the slot of a message at `a` is. -/
def addr (a : Nat) (slot : Slot) : Nat := a + offsetOf d.members slot.field + slot.size * slot.index

/-- The `enum` constant of a type. -/
def code (t : MsgType) : UInt32 := UInt32.ofNat (d.types.idxOf t + 1)

/-- What a constant stands for. -/
def typeOf (w : UInt32) : Option MsgType := if w = 0 then none else d.types[w.toNat - 1]?

/-- The word in a slot. -/
def word (mem : Nat → UInt8) (a : Nat) (slot : Slot) : Nat :=
  ofBytes (load mem (d.addr a slot) slot.size)

/-- The message at `a`. -/
def view (mem : Nat → UInt8) (a : Nat) : RawMessage where
  buf := fun i => UInt64.ofNat (d.word mem a (.buf i))
  rkey := fun i => UInt32.ofNat (d.word mem a (.rkey i))
  sizeGb := (UInt32.ofNat (d.word mem a .sizeGb)).toInt32
  type := UInt32.ofNat (d.word mem a .type)

/-- The word assigned. -/
def value : Assignment → Nat
  | .buf _ value => value.toNat
  | .rkey _ value => value.toNat
  | .sizeGb value => value.toUInt32.toNat
  | .type value => (d.code value).toNat

/-- The assignment on the bytes. -/
def assign (a : Nat) (mem : Nat → UInt8) (w : Assignment) : Nat → UInt8 :=
  store mem (d.addr a w.slot) (toBytes w.slot.size (d.value w))

/-- A send of the message at `a`, into the receive buffer at `b`. -/
def send (mem : Nat → UInt8) (a : Nat) (mem' : Nat → UInt8) (b : Nat) : Nat → UInt8 :=
  store mem' b (load mem a (structSize d.members))

end MessageDecl

/-- The assignment on the message. -/
def RawMessage.assign (d : MessageDecl) (m : RawMessage) : Assignment → RawMessage
  | .buf i value => { m with buf := Function.update m.buf i value }
  | .rkey i value => { m with rkey := Function.update m.rkey i value }
  | .sizeGb value => { m with sizeGb := value }
  | .type value => { m with type := d.code value }

/-- The message as the handlers have it; `none` is a `type` that is no constant. -/
def RawMessage.message (d : MessageDecl) (m : RawMessage) : Option Message :=
  (d.typeOf m.type).map fun type => ⟨m.buf, m.rkey, m.sizeGb.toInt, type⟩

/-- The assignment as the handlers have it. -/
def Message.assign (msg : Message) : Assignment → Message
  | .buf i value => { msg with buf := Function.update msg.buf i value }
  | .rkey i value => { msg with rkey := Function.update msg.rkey i value }
  | .sizeGb value => { msg with sizeGb := value.toInt }
  | .type value => { msg with type := value }

/-! ## Slots -/

/-- The layout both declarations have: no padding between the members or behind them. -/
structure MessageDecl.Packed (d : MessageDecl) : Prop where
  buf : offsetOf d.members .buf = 0
  rkey : offsetOf d.members .rkey = 256
  sizeGb : offsetOf d.members .sizeGb = 384
  type : offsetOf d.members .type = 388
  size : structSize d.members = 392

theorem packed_isRdmaInfo : isRdmaInfo.Packed := ⟨rfl, rfl, rfl, rfl, rfl⟩

theorem packed_messageStruct : messageStruct.Packed := ⟨rfl, rfl, rfl, rfl, rfl⟩

namespace Slot

theorem place_add_size_le (slot : Slot) : slot.place + slot.size ≤ 392 := by
  cases slot with
  | buf i | rkey i =>
      have hi := i.isLt
      simp only [maxMrSizeGb] at hi
      simp only [place, size]
      omega
  | sizeGb | type => decide

theorem place_apart {s t : Slot} (h : s ≠ t) :
    s.place + s.size ≤ t.place ∨ t.place + t.size ≤ s.place := by
  have hbound := fun i : ChunkIx => i.isLt
  simp only [maxMrSizeGb] at hbound
  cases s with
  | buf i =>
      have hi := hbound i
      cases t with
      | buf j =>
          have hij : i.val ≠ j.val := fun heq => h (congrArg Slot.buf (Fin.ext heq))
          simp only [place, size]
          omega
      | rkey j | sizeGb | type =>
          simp only [place, size]
          omega
  | rkey i =>
      have hi := hbound i
      cases t with
      | buf j =>
          have hj := hbound j
          simp only [place, size]
          omega
      | rkey j =>
          have hij : i.val ≠ j.val := fun heq => h (congrArg Slot.rkey (Fin.ext heq))
          simp only [place, size]
          omega
      | sizeGb | type =>
          simp only [place, size]
          omega
  | sizeGb | type =>
      cases t with
      | buf j | rkey j =>
          have hj := hbound j
          simp only [place, size]
          omega
      | sizeGb | type => first | exact absurd rfl h | (simp only [place, size]; omega)

/-- Every byte of the message is in a slot. -/
theorem exists_place_add {k : Nat} (hk : k < 392) :
    ∃ slot : Slot, ∃ j, j < slot.size ∧ k = slot.place + j := by
  have hchunk : ∀ q, q < 32 → q < maxMrSizeGb := fun q hq => hq
  rcases Nat.lt_or_ge k 256 with hbuf | hbuf
  · exact ⟨.buf ⟨k / 8, hchunk _ (by omega)⟩, k % 8, Nat.mod_lt _ (by decide),
      (Nat.div_add_mod k 8).symm⟩
  rcases Nat.lt_or_ge k 384 with hrkey | hrkey
  · refine ⟨.rkey ⟨(k - 256) / 4, hchunk _ (by omega)⟩, (k - 256) % 4,
      Nat.mod_lt _ (by decide), ?_⟩
    simp only [place]
    omega
  rcases Nat.lt_or_ge k 388 with hsize | hsize
  · exact ⟨.sizeGb, k - 384, by simp only [size]; omega, by simp only [place]; omega⟩
  · exact ⟨.type, k - 388, by simp only [size]; omega, by simp only [place]; omega⟩

end Slot

section Layout

variable {d e : MessageDecl} {mem mem' : Nat → UInt8} {a b : Nat}

theorem MessageDecl.Packed.addr (hd : d.Packed) (a : Nat) (slot : Slot) :
    d.addr a slot = a + slot.place := by
  cases slot with
  | buf i => simp [MessageDecl.addr, Slot.field, Slot.size, Slot.index, Slot.place, hd.buf]
  | rkey i =>
      simp [MessageDecl.addr, Slot.field, Slot.size, Slot.index, Slot.place, hd.rkey, Nat.add_assoc]
  | sizeGb => simp [MessageDecl.addr, Slot.field, Slot.index, Slot.place, hd.sizeGb]
  | type => simp [MessageDecl.addr, Slot.field, Slot.index, Slot.place, hd.type]

theorem word_lt (d : MessageDecl) (mem : Nat → UInt8) (a : Nat) (slot : Slot) :
    d.word mem a slot < 256 ^ slot.size := by
  simpa [MessageDecl.word] using ofBytes_lt (load mem (d.addr a slot) slot.size)

theorem value_lt (d : MessageDecl) (w : Assignment) : d.value w < 256 ^ w.slot.size := by
  cases w with
  | buf i value => exact value.toNat_lt
  | rkey i value => exact value.toNat_lt
  | sizeGb value => exact value.toUInt32.toNat_lt
  | type value => exact (d.code value).toNat_lt

/-! ## Assignments -/

theorem word_assign_self (d : MessageDecl) (mem : Nat → UInt8) (a : Nat) (w : Assignment) :
    d.word (d.assign a mem w) a w.slot = d.value w := by
  have hload : load (d.assign a mem w) (d.addr a w.slot)
      (toBytes w.slot.size (d.value w)).length = toBytes w.slot.size (d.value w) := load_store
  rw [length_toBytes] at hload
  rw [MessageDecl.word, hload, ofBytes_toBytes (value_lt d w)]

theorem word_assign_of_ne (hd : d.Packed) {w : Assignment} {slot : Slot} (h : slot ≠ w.slot) :
    d.word (d.assign a mem w) a slot = d.word mem a slot := by
  have hapart := Slot.place_apart h
  rw [MessageDecl.word, MessageDecl.word, MessageDecl.assign, load_store_of_apart]
  rw [length_toBytes, hd.addr, hd.addr]
  omega

theorem assign_apply_of_apart (hd : d.Packed) {k : Nat} (w : Assignment)
    (hk : k < a ∨ a + 392 ≤ k) : d.assign a mem w k = mem k := by
  have hinside := w.slot.place_add_size_le
  apply store_apply_of_apart
  rw [length_toBytes, hd.addr]
  omega

/-- An assignment changes the message as the member it names. -/
theorem view_assign (hd : d.Packed) (w : Assignment) :
    d.view (d.assign a mem w) a = (d.view mem a).assign d w := by
  have hself := word_assign_self d mem a w
  have hrest : ∀ slot, slot ≠ w.slot →
      d.word (d.assign a mem w) a slot = d.word mem a slot :=
    fun slot hne => word_assign_of_ne hd hne
  cases w with
  | buf i value =>
      ext1
      · funext j
        simp only [MessageDecl.view, RawMessage.assign, Function.update_apply]
        split
        case isTrue hj =>
          rw [hj]
          exact (congrArg UInt64.ofNat hself).trans UInt64.ofNat_toNat
        case isFalse hj => rw [hrest _ fun heq => hj (Slot.buf.inj heq)]
      · funext j
        exact congrArg UInt32.ofNat (hrest _ nofun)
      · exact congrArg (fun n => (UInt32.ofNat n).toInt32) (hrest _ nofun)
      · exact congrArg UInt32.ofNat (hrest _ nofun)
  | rkey i value =>
      ext1
      · funext j
        exact congrArg UInt64.ofNat (hrest _ nofun)
      · funext j
        simp only [MessageDecl.view, RawMessage.assign, Function.update_apply]
        split
        case isTrue hj =>
          rw [hj]
          exact (congrArg UInt32.ofNat hself).trans UInt32.ofNat_toNat
        case isFalse hj => rw [hrest _ fun heq => hj (Slot.rkey.inj heq)]
      · exact congrArg (fun n => (UInt32.ofNat n).toInt32) (hrest _ nofun)
      · exact congrArg UInt32.ofNat (hrest _ nofun)
  | sizeGb value =>
      ext1
      · funext j
        exact congrArg UInt64.ofNat (hrest _ nofun)
      · funext j
        exact congrArg UInt32.ofNat (hrest _ nofun)
      · have hvalue : (UInt32.ofNat value.toUInt32.toNat).toInt32 = value := by
          rw [UInt32.ofNat_toNat]
          rfl
        exact (congrArg (fun n => (UInt32.ofNat n).toInt32) hself).trans hvalue
      · exact congrArg UInt32.ofNat (hrest _ nofun)
  | type value =>
      ext1
      · funext j
        exact congrArg UInt64.ofNat (hrest _ nofun)
      · funext j
        exact congrArg UInt32.ofNat (hrest _ nofun)
      · exact congrArg (fun n => (UInt32.ofNat n).toInt32) (hrest _ nofun)
      · exact (congrArg UInt32.ofNat hself).trans UInt32.ofNat_toNat

theorem foldl_assign_apply_of_apart (hd : d.Packed) (ws : List Assignment) (mem : Nat → UInt8)
    {k : Nat} (hk : k < a ∨ a + 392 ≤ k) : ws.foldl (d.assign a) mem k = mem k := by
  induction ws generalizing mem with
  | nil => rfl
  | cons w ws ih => rw [List.foldl_cons, ih, assign_apply_of_apart hd w hk]

theorem view_foldl_assign (hd : d.Packed) (ws : List Assignment) (mem : Nat → UInt8) :
    d.view (ws.foldl (d.assign a) mem) a = ws.foldl (RawMessage.assign d) (d.view mem a) := by
  induction ws generalizing mem with
  | nil => rfl
  | cons w ws ih => rw [List.foldl_cons, List.foldl_cons, ih, view_assign hd]

/-! ## Sends -/

theorem view_send (hd : d.Packed) (he : e.Packed) :
    e.view (d.send mem a mem' b) b = d.view mem a := by
  have hword : ∀ slot, e.word (d.send mem a mem' b) b slot = d.word mem a slot := by
    intro slot
    rw [MessageDecl.word, MessageDecl.word, hd.addr, he.addr, MessageDecl.send, hd.size,
      load_store_load slot.place_add_size_le]
  simp only [MessageDecl.view, hword]

theorem send_apply_of_apart (hd : d.Packed) {k : Nat} (hk : k < b ∨ b + 392 ≤ k) :
    d.send mem a mem' b k = mem' k := by
  apply store_apply_of_apart
  rwa [length_load, hd.size]

/-- No two words of a slot are read as one value. -/
theorem word_eq_of_view_eq (h : d.view mem a = e.view mem' b) (slot : Slot) :
    d.word mem a slot = e.word mem' b slot := by
  have hlt := word_lt d mem a slot
  have hlt' := word_lt e mem' b slot
  cases slot with
  | buf i => exact eq_of_ofNat64_eq hlt hlt' (congrFun (congrArg RawMessage.buf h) i)
  | rkey i => exact eq_of_ofNat32_eq hlt hlt' (congrFun (congrArg RawMessage.rkey h) i)
  | sizeGb =>
      have hsize := congrArg Int32.toUInt32 (congrArg RawMessage.sizeGb h)
      exact eq_of_ofNat32_eq hlt hlt' hsize
  | type => exact eq_of_ofNat32_eq hlt hlt' (congrArg RawMessage.type h)

/-- The bytes of a message are those of its members. -/
theorem load_eq_of_view_eq (hd : d.Packed) (he : e.Packed)
    (h : d.view mem a = e.view mem' b) : load mem a 392 = load mem' b 392 := by
  have hload : ∀ slot : Slot, load mem (a + slot.place) slot.size =
      load mem' (b + slot.place) slot.size := by
    intro slot
    have hword := word_eq_of_view_eq h slot
    rw [MessageDecl.word, MessageDecl.word, hd.addr, he.addr] at hword
    exact ofBytes_inj (by rw [length_load, length_load]) hword
  refine load_congr fun k hk => ?_
  obtain ⟨slot, j, hj, rfl⟩ := Slot.exists_place_add hk
  have hbyte := eq_of_load_eq (hload slot) hj
  rwa [Nat.add_assoc, Nat.add_assoc] at hbyte

end Layout

/-! ## The two programs -/

/-- The programs that exchange messages. -/
inductive Program where
  | manager | monitor
  deriving DecidableEq, Repr

/-- The declaration a program is compiled with. -/
def Program.decl : Program → MessageDecl
  | .manager => isRdmaInfo
  | .monitor => messageStruct

theorem Program.packed (p : Program) : p.decl.Packed :=
  match p with
  | .manager => packed_isRdmaInfo
  | .monitor => packed_messageStruct

/-- A constant stands for the same type in both programs. -/
theorem typeOf_code (p q : Program) (t : MsgType) : q.decl.typeOf (p.decl.code t) = some t := by
  cases p <;> cases q <;> cases t <;> rfl

section Messages

variable {p q : Program}

/-- The message a program has, up to a type not assigned yet. -/
def RawMessage.withType (m : RawMessage) (t : MsgType) : Message :=
  ⟨m.buf, m.rkey, m.sizeGb.toInt, t⟩

theorem message_assign (w : Assignment) {m : RawMessage} {msg : Message}
    (h : m.message q.decl = some msg) :
    (m.assign p.decl w).message q.decl = some (msg.assign w) := by
  obtain ⟨t, ht, rfl⟩ := Option.map_eq_some_iff.mp h
  cases w with
  | buf i value | rkey i value | sizeGb value =>
      rw [RawMessage.message, RawMessage.assign, ht]
      rfl
  | type value =>
      rw [RawMessage.message, RawMessage.assign, typeOf_code]
      rfl

theorem message_foldl_assign (ws : List Assignment) {m : RawMessage} {msg : Message}
    (h : m.message q.decl = some msg) :
    (ws.foldl (RawMessage.assign p.decl) m).message q.decl =
      some (ws.foldl Message.assign msg) := by
  induction ws generalizing m msg with
  | nil => exact h
  | cons w ws ih => exact ih (message_assign w h)

/-- Once the type is assigned the message can be read, whatever was in the buffer before. -/
theorem message_of_type_mem (ws : List Assignment) (m : RawMessage) (t₀ : MsgType)
    (hws : ∃ t, .type t ∈ ws) :
    (ws.foldl (RawMessage.assign p.decl) m).message q.decl =
      some (ws.foldl Message.assign (m.withType t₀)) := by
  obtain ⟨t, ht⟩ := hws
  induction ws generalizing m with
  | nil => exact absurd ht List.not_mem_nil
  | cons w ws ih =>
      cases w with
      | buf i value | rkey i value | sizeGb value =>
          exact ih _ ((List.mem_cons.mp ht).resolve_left nofun)
      | type value =>
          refine message_foldl_assign ws ?_
          rw [RawMessage.message, RawMessage.assign, typeOf_code]
          rfl

end Messages

/-- The memory of the receiver after program `p` has assigned `ws` to its message at `a` and
sent it into the receive buffer at `b`. -/
def received (p : Program) (ws : List Assignment) (mem : Nat → UInt8) (a : Nat)
    (mem' : Nat → UInt8) (b : Nat) : Nat → UInt8 :=
  p.decl.send (ws.foldl (p.decl.assign a) mem) a mem' b

theorem view_received (p q : Program) (ws : List Assignment) (mem : Nat → UInt8) (a : Nat)
    (mem' : Nat → UInt8) (b : Nat) :
    q.decl.view (received p ws mem a mem' b) b =
      ws.foldl (RawMessage.assign p.decl) (p.decl.view mem a) := by
  rw [received, view_send p.packed q.packed, view_foldl_assign p.packed]

/-- What is assigned in one program, whatever was in its buffer before, is the message the
other has after the send, and of the length `client_recv` wants.  Around the two buffers
nothing changes, and whoever has the same message in memory has the same bytes. -/
theorem assigned_message_arrives (p q : Program) (ws : List Assignment)
    (hws : ∃ t, .type t ∈ ws) (mem mem' : Nat → UInt8) (a b : Nat) (t₀ : MsgType) :
    (q.decl.view (received p ws mem a mem' b) b).message q.decl =
        some (ws.foldl Message.assign ((p.decl.view mem a).withType t₀)) ∧
      structSize p.decl.members = structSize q.decl.members ∧
      (∀ k, k < a ∨ a + 392 ≤ k → ws.foldl (p.decl.assign a) mem k = mem k) ∧
      (∀ k, k < b ∨ b + 392 ≤ k → received p ws mem a mem' b k = mem' k) ∧
      ∀ (r : Program) (other : Nat → UInt8) (o : Nat),
        r.decl.view other o = q.decl.view (received p ws mem a mem' b) b →
          load other o 392 = load (received p ws mem a mem' b) b 392 := by
  refine ⟨?_, p.packed.size.trans q.packed.size.symm,
    fun k hk => foldl_assign_apply_of_apart p.packed ws mem hk,
    fun k hk => send_apply_of_apart p.packed hk,
    fun r other o h => load_eq_of_view_eq r.packed q.packed h⟩
  rw [view_received, message_of_type_mem ws _ t₀ hws]

theorem assigned_message_arrives_bind :
    (∃ t, Assignment.type t ∈ [.type .bindSingle, .sizeGb 7]) ∧
      (messageStruct.view
        (received .manager [.type .bindSingle, .sizeGb 7] (fun _ => 0) 0 (fun _ => 1) 1000)
        1000).message messageStruct = some (Message.plain .bindSingle 7) :=
  ⟨⟨.bindSingle, List.mem_cons_self⟩,
    (assigned_message_arrives .manager .monitor [.type .bindSingle, .sizeGb 7]
      ⟨.bindSingle, List.mem_cons_self⟩ (fun _ => 0) (fun _ => 1) 0 1000 .done).1⟩

end Hydra.Wire
