/-
  Manager/Portal.lean --- the portal attribute and its parser.

  Source: `portal_attr_store` of `resilience_manager/is_configfs.c`; the start of
  `IS_session_create`, `IS_session_find_by_portal` and `portal_parser` of `is_main.c`;
  `struct IS_portal` of `infiniswap.h`.

  Texts are their bytes, without the terminator.  Every access outside the string or the
  arrays is an error of its own, and so is a `NULL` that is used.
-/
import Hydra.Foundation.Decimal
import Hydra.Foundation.Fields

set_option autoImplicit false

namespace Hydra.Manager

open Hydra.Foundation

/-! ## Strings -/

/-- `MAX_PORTAL_NAME`. -/
def maxPortalName : Nat := 512

/-- `sizeof(struct IS_portal)`: a `uint16_t` and 16 bytes. -/
def portalSize : Nat := 18

/-- The size of `addr` in `struct IS_portal`. -/
def addrSize : Nat := 16

def comma : UInt8 := 44

def colon : UInt8 := 58

/-- `"rdma://"`. -/
def rdmaScheme : List UInt8 := [114, 100, 109, 97, 58, 47, 47]

/-- The string that starts at some bytes: up to the terminator. -/
def cString (s : List UInt8) : List UInt8 := s.takeWhile (· ≠ 0)

/-- What `sscanf` leaves in an `int` that was zero: `%d` of the string. -/
def scanInt (s : List UInt8) : Int32 :=
  match leadingInt s with
  | none => 0
  | some v => Int32.ofInt v

/-! ## Memory -/

/-- `kzalloc`, as far as the parser depends on it: which sizes it serves.  The argument of
a negative number of portals is close to `2^64`. -/
structure Allocator where
  serves : Nat → Bool
  small : ∀ n ≤ portalSize * maxPortalName, serves n = true
  huge : ∀ n, 2 ^ 63 ≤ n → serves n = false

/-- What goes wrong: a buffer of `MAX_PORTAL_NAME` bytes is too short, there is no token,
no colon up to the end of the string, no `portal_list`, or no room in `addr`. -/
inductive PortalFault where
  | overrun (n : Nat)
  | noToken (i : Nat)
  | pastString (i : Nat)
  | noList (i : Nat)
  | longAddress (i j : Nat)
  deriving DecidableEq, Repr

/-- `struct IS_portal`, with the bytes of `addr` before the terminator the parser writes. -/
structure IsPortal where
  addr : List UInt8
  port : UInt16
  deriving DecidableEq, Repr

/-- What `portal_parser` leaves: `cb_num`, the entries `portal_list` has room for, and
those filled. -/
structure Portals where
  cbNum : Int32
  allocated : Nat
  portalList : List IsPortal
  deriving DecidableEq, Repr

/-! ## The parser -/

/-- The string from `single_portal` on after `strsep`: its comma is a terminator now. -/
def endAtComma (s : List UInt8) : List UInt8 :=
  match fieldTail comma s with
  | none => s
  | some rest => fieldHead comma s ++ 0 :: rest

/-- One turn of the loop of `portal_parser`, with the string from `ptr` on; `none` is
`NULL`.  The search for a colon does not stop at a terminator. -/
def portalEntry (listed : Bool) (i : Nat) (ptr : Option (List UInt8)) :
    Except PortalFault (IsPortal × Option (List UInt8)) :=
  match ptr with
  | none => .error (.noToken i)
  | some s =>
      let singlePortal := endAtComma s
      match singlePortal.findIdx? (· = colon) with
      | none => .error (.pastString i)
      | some j =>
          if !listed then .error (.noList i)
          else if addrSize < j + 1 then .error (.longAddress i j)
          else
            .ok ({ addr := singlePortal.take j
                   port := (scanInt (cString (singlePortal.drop (j + 1)))).toUInt32.toUInt16 },
              fieldTail comma s)

/-- The loop, with `count` turns to go. -/
def portalLoop (listed : Bool) : Nat → Nat → Option (List UInt8) →
    Except PortalFault (List IsPortal)
  | 0, _, _ => .ok []
  | count + 1, i, ptr =>
      match portalEntry listed i ptr with
      | .error e => .error e
      | .ok (portal, ptr) =>
          match portalLoop listed count (i + 1) ptr with
          | .error e => .error e
          | .ok more => .ok (portal :: more)

/-- The count a text starts with. -/
def portalCount (text : List UInt8) : Int32 := scanInt (fieldHead comma text)

/-- `sizeof(struct IS_portal) * IS_session->cb_num`, a `size_t`. -/
def portalBytes (cbNum : Int32) : Nat := ((portalSize : Int) * cbNum.toInt % 2 ^ 64).toNat

/-- `portal_parser`, on the string behind `rdma://`. -/
def portalParser (a : Allocator) (text : List UInt8) : Except PortalFault Portals :=
  let cbNum := portalCount text
  let listed := a.serves (portalBytes cbNum)
  match portalLoop listed cbNum.toInt.toNat 0 (fieldTail comma text) with
  | .error e => .error e
  | .ok portals =>
      .ok { cbNum := cbNum
            allocated := if listed then portalBytes cbNum / portalSize else 0
            portalList := portals }

/-! ## The attribute -/

/-- `IS_session_create` up to the parser, for a session just allocated and so all zero. -/
def sessionPortals (a : Allocator) (portal : List UInt8) : Except PortalFault Portals :=
  if maxPortalName < portal.length then .error (.overrun portal.length)
  else portalParser a (portal.drop rdmaScheme.length)

/-- `IS_session_find_by_portal`: the parser has cut the portals of other sessions at their
first comma. -/
def findByPortal (sessions : List (List UInt8)) (rdma : List UInt8) : Bool :=
  sessions.any fun portal => decide (fieldHead comma portal = rdma)

/-- What `%s` makes of the string `strcat` has put together. -/
def portalName (buf : List UInt8) : List UInt8 :=
  (rdmaScheme ++ cString buf).takeWhile fun c => !isSpace c

/-- `portal_attr_store` up to the parser, with the portals of the sessions there are.
`none` is `-EEXIST`. -/
def portalAttrStore (a : Allocator) (sessions : List (List UInt8)) (buf : List UInt8) :
    Except PortalFault (Option Portals) :=
  if maxPortalName < rdmaScheme.length + (cString buf).length + 1 then
    .error (.overrun (rdmaScheme.length + (cString buf).length + 1))
  else if findByPortal sessions (portalName buf) then .ok none
  else
    match sessionPortals a (portalName buf) with
    | .error e => .error e
    | .ok p => .ok (some p)

/-! ## The property -/

/-- Storing the text stays inside all strings and arrays, and the parser fills as many
portals as it has got. -/
def Contained (a : Allocator) (sessions : List (List UInt8)) (buf : List UInt8) : Prop :=
  ∃ r, portalAttrStore a sessions buf = .ok r ∧
    ∀ p ∈ r, p.allocated = p.portalList.length ∧ ∀ e ∈ p.portalList, e.addr.length < addrSize

/-- The text up to white space. -/
def portalText (buf : List UInt8) : List UInt8 := (cString buf).takeWhile fun c => !isSpace c

/-- The text is short enough and, unless it is that of another session, has for each portal
of its count a comma and a colon at most 15 characters behind it. -/
structure PortalFits (sessions : List (List UInt8)) (buf : List UInt8) : Prop where
  length : (cString buf).length + rdmaScheme.length + 1 ≤ maxPortalName
  entries : findByPortal sessions (rdmaScheme ++ portalText buf) = true ∨
    ∀ k : Nat, (k : Int) < (portalCount (portalText buf)).toInt →
      ∃ s, fieldFrom comma (k + 1) (some (portalText buf)) = some s ∧ colon ∈ s.take addrSize

/-! ## One portal -/

/-- The terminator in place of a comma makes no difference to the search. -/
theorem findIdx?_endAtComma (s : List UInt8) :
    (endAtComma s).findIdx? (· = colon) = s.findIdx? (· = colon) := by
  unfold endAtComma
  cases htail : fieldTail comma s with
  | none => rfl
  | some rest =>
      conv_rhs => rw [fieldTail_some htail]
      simp only [List.findIdx?_append, List.findIdx?_cons,
        show decide ((0 : UInt8) = colon) = false from rfl,
        show decide (comma = colon) = false from rfl]

section Entry

variable {listed : Bool} {i : Nat} {ptr : Option (List UInt8)}

theorem portalEntry_total :
    (∃ r, portalEntry listed i ptr = .ok r) ↔
      listed = true ∧ ∃ s, ptr = some s ∧ colon ∈ s.take addrSize := by
  cases ptr with
  | none => simp [portalEntry]
  | some s =>
      rw [portalEntry]
      simp only [findIdx?_endAtComma, Option.some.injEq, exists_eq_left', ← findIdx?_lt_iff]
      cases hj : s.findIdx? (· = colon) with
      | none => simp
      | some j =>
          cases listed with
          | false => simp
          | true =>
              by_cases hlong : addrSize < j + 1
              · simp [hlong, Nat.le_of_lt_succ hlong]
              · simp [hlong]
                omega

theorem portalEntry_ok {r : IsPortal × Option (List UInt8)} (h : portalEntry listed i ptr = .ok r) :
    r.2 = ptr.bind (fieldTail comma) ∧ r.1.addr.length < addrSize := by
  unfold portalEntry at h
  split at h
  · cases h
  · rename_i s
    simp only at h
    split at h
    · cases h
    · rename_i j hj
      split at h
      · cases h
      · split at h
        · cases h
        · rename_i hlong
          obtain rfl := Except.ok.inj h
          refine ⟨rfl, ?_⟩
          rw [List.length_take]
          omega

end Entry

/-! ## The loop -/

section Loop

variable {listed : Bool}

theorem portalLoop_total {count i : Nat} {ptr : Option (List UInt8)} :
    (∃ l, portalLoop listed count i ptr = .ok l) ↔
      (count = 0 ∨ listed = true) ∧
        ∀ k < count, ∃ s, fieldFrom comma k ptr = some s ∧ colon ∈ s.take addrSize := by
  induction count generalizing i ptr with
  | zero => simp [portalLoop]
  | succ count ih =>
      have hsplit : (∃ l, portalLoop listed (count + 1) i ptr = .ok l) ↔
          ∃ r, portalEntry listed i ptr = .ok r ∧
            ∃ more, portalLoop listed count (i + 1) r.2 = .ok more := by
        rw [portalLoop]
        cases portalEntry listed i ptr with
        | error e => simp
        | ok r =>
            obtain ⟨portal, next⟩ := r
            cases hmore : portalLoop listed count (i + 1) next <;> simp [hmore]
      rw [hsplit]
      constructor
      · rintro ⟨r, hr, hmore⟩
        obtain ⟨hlisted, s, hs, hcolon⟩ := portalEntry_total.mp ⟨r, hr⟩
        rw [(portalEntry_ok hr).1] at hmore
        obtain ⟨-, hrest⟩ := ih.mp hmore
        refine ⟨.inr hlisted, fun k hk => ?_⟩
        cases k with
        | zero => exact ⟨s, hs, hcolon⟩
        | succ k => exact hrest k (by omega)
      · rintro ⟨hlisted, hall⟩
        have hlisted := hlisted.resolve_left (by omega)
        obtain ⟨r, hr⟩ := portalEntry_total.mpr ⟨hlisted, hall 0 (by omega)⟩
        refine ⟨r, hr, ?_⟩
        rw [(portalEntry_ok hr).1]
        exact ih.mpr ⟨.inr hlisted, fun k hk => hall (k + 1) (by omega)⟩

theorem portalLoop_ok {count i : Nat} {ptr : Option (List UInt8)} {l : List IsPortal}
    (h : portalLoop listed count i ptr = .ok l) :
    l.length = count ∧ ∀ e ∈ l, e.addr.length < addrSize := by
  induction count generalizing i ptr l with
  | zero =>
      obtain rfl := Except.ok.inj h
      simp
  | succ count ih =>
      rw [portalLoop] at h
      split at h
      · cases h
      · rename_i portal next hentry
        split at h
        · cases h
        · rename_i more hmore
          obtain rfl := Except.ok.inj h
          obtain ⟨hlen, haddr⟩ := ih hmore
          exact ⟨by rw [List.length_cons, hlen],
            List.forall_mem_cons.mpr ⟨(portalEntry_ok hentry).2, haddr⟩⟩

end Loop

/-! ## The parser -/

section Parser

variable {a : Allocator} {text : List UInt8}

theorem portalBytes_of_nonneg {n : Int32} (h : 0 ≤ n.toInt) :
    portalBytes n = portalSize * n.toInt.toNat := by
  have hlt := n.toInt_lt
  have hmod : (portalSize : Int) * n.toInt % 2 ^ 64 = portalSize * n.toInt :=
    Int.emod_eq_of_lt (by rw [portalSize]; omega) (by rw [portalSize]; omega)
  rw [portalBytes, hmod, portalSize]
  omega

theorem portalBytes_of_neg {n : Int32} (h : n.toInt < 0) : 2 ^ 63 ≤ portalBytes n := by
  have hle := n.le_toInt
  have hmod : (portalSize : Int) * n.toInt % 2 ^ 64 = portalSize * n.toInt + 2 ^ 64 := by
    rw [← Int.add_emod_right]
    exact Int.emod_eq_of_lt (by rw [portalSize]; omega) (by rw [portalSize]; omega)
  rw [portalBytes, hmod, portalSize]
  omega

theorem portalParser_total (hlen : text.length ≤ maxPortalName) :
    (∃ p, portalParser a text = .ok p) ↔
      ∀ k : Nat, (k : Int) < (portalCount text).toInt →
        ∃ s, fieldFrom comma (k + 1) (some text) = some s ∧ colon ∈ s.take addrSize := by
  have hloop : (∃ p, portalParser a text = .ok p) ↔
      ∃ l, portalLoop (a.serves (portalBytes (portalCount text)))
        (portalCount text).toInt.toNat 0 (fieldTail comma text) = .ok l := by
    rw [portalParser]
    cases portalLoop (a.serves (portalBytes (portalCount text)))
      (portalCount text).toInt.toNat 0 (fieldTail comma text) <;> simp
  rw [hloop, portalLoop_total]
  constructor
  · exact fun h k hk => h.2 k (by omega)
  · intro h
    refine ⟨?_, fun k hk => h k (by omega)⟩
    rcases Nat.eq_zero_or_pos (portalCount text).toInt.toNat with hzero | hpos
    · exact .inl hzero
    · -- there is a comma for every portal
      obtain ⟨s, hs, -⟩ := h ((portalCount text).toInt.toNat - 1) (by omega)
      have hcommas := fieldFrom_length hs
      refine .inr (a.small _ ?_)
      rw [portalBytes_of_nonneg (by omega)]
      exact Nat.mul_le_mul_left _ (by omega)

theorem portalParser_cbNum {p : Portals} (h : portalParser a text = .ok p) :
    p.cbNum = portalCount text := by
  rw [portalParser] at h
  split at h
  · cases h
  · obtain rfl := Except.ok.inj h
    rfl

theorem portalParser_ok {p : Portals} (h : portalParser a text = .ok p) :
    p.allocated = p.portalList.length ∧ ∀ e ∈ p.portalList, e.addr.length < addrSize := by
  rw [portalParser] at h
  split at h
  · cases h
  · rename_i portals hloop
    obtain rfl := Except.ok.inj h
    obtain ⟨hcount, haddr⟩ := portalLoop_ok hloop
    refine ⟨?_, haddr⟩
    have hlisted := (portalLoop_total.mp ⟨_, hloop⟩).1
    simp only [hcount]
    by_cases hneg : (portalCount text).toInt < 0
    · rw [a.huge _ (portalBytes_of_neg hneg), if_neg (by decide)]
      omega
    · rw [portalBytes_of_nonneg (by omega)] at hlisted ⊢
      rcases hlisted with hzero | hserved
      · simp [hzero]
      · rw [if_pos hserved, Nat.mul_div_cancel_left _ (by decide)]

end Parser

/-! ## The attribute -/

theorem portalName_eq (buf : List UInt8) : portalName buf = rdmaScheme ++ portalText buf := by
  have hscheme : rdmaScheme.all (fun c => !isSpace c) = true := by decide
  rw [portalName, portalText, List.takeWhile_append_of_pos (List.all_eq_true.mp hscheme)]

theorem length_portalText_le (buf : List UInt8) :
    (portalText buf).length ≤ (cString buf).length :=
  (List.takeWhile_prefix _).length_le

/-- Storing a portal is contained exactly when the text is short enough and, unless it is
that of another session, there are a comma and a colon for each portal of its count, the
colon at most 15 characters behind the comma. -/
theorem contained_iff (a : Allocator) (sessions : List (List UInt8)) (buf : List UInt8) :
    Contained a sessions buf ↔ PortalFits sessions buf := by
  have htext := length_portalText_le buf
  unfold Contained portalAttrStore
  rw [portalName_eq]
  by_cases hlong : maxPortalName < rdmaScheme.length + (cString buf).length + 1
  · rw [if_pos hlong]
    constructor
    · rintro ⟨r, hr, -⟩
      cases hr
    · intro h
      have := h.length
      omega
  · rw [if_neg hlong]
    by_cases hfind : findByPortal sessions (rdmaScheme ++ portalText buf) = true
    · rw [if_pos hfind]
      exact ⟨fun _ => ⟨by omega, .inl hfind⟩, fun _ => ⟨none, rfl, by simp⟩⟩
    · have hname : sessionPortals a (rdmaScheme ++ portalText buf) =
          portalParser a (portalText buf) := by
        rw [sessionPortals, if_neg (by rw [List.length_append]; omega), List.drop_left]
      rw [if_neg hfind, hname]
      have htotal : (∃ p, portalParser a (portalText buf) = .ok p) ↔ _ :=
        portalParser_total (by omega)
      constructor
      · rintro ⟨r, hr, -⟩
        refine ⟨by omega, .inr (htotal.mp ?_)⟩
        split at hr
        · cases hr
        · rename_i p hp
          exact ⟨p, hp⟩
      · intro h
        obtain ⟨p, hp⟩ := htotal.mpr (h.entries.resolve_left hfind)
        refine ⟨some p, by rw [hp], ?_⟩
        rintro q ⟨⟩
        exact portalParser_ok hp

/-- An allocator with the limit of the kernel's caches. -/
def kmalloc : Allocator where
  serves n := decide (n ≤ 2 ^ 22)
  small n hn := decide_eq_true (hn.trans (by decide))
  huge n hn := decide_eq_false (by omega)

/-- A count of one and nothing else: the parser goes on with `NULL`. -/
theorem missing_token_strays :
    portalAttrStore kmalloc [] [49] = .error (.noToken 0) ∧ ¬ Contained kmalloc [] [49] := by
  have hstray : portalAttrStore kmalloc [] [49] = .error (.noToken 0) := by decide
  refine ⟨hstray, ?_⟩
  rintro ⟨r, hr, -⟩
  rw [hstray] at hr
  cases hr

end Hydra.Manager
