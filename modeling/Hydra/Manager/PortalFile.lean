/-
  Manager/PortalFile.lean --- from the portal file to the portals of a session.

  Source: `createHost` of `resilience_manager/nbdxadm/nbdxadm`, and the attribute and the
  parser of `Manager/Portal.lean`.

  `createHost` puts a comma behind every line of the file and writes the whole to the
  attribute in one go.
-/
import Mathlib.Data.List.DropRight
import Hydra.Manager.Portal

set_option autoImplicit false

namespace Hydra.Manager

open Hydra.Foundation

/-! ## The file -/

def newline : UInt8 := 10

/-- White space to Python's `strip`. -/
def pySpace (c : UInt8) : Bool := decide ((9 ≤ c ∧ c ≤ 13) ∨ c = 32)

/-- `strip`. -/
def strip (s : List UInt8) : List UInt8 := (s.dropWhile pySpace).rdropWhile pySpace

/-- What `createHost` writes to the attribute. -/
def createHost (file : List UInt8) : List UInt8 :=
  (splitLines newline file).foldl (fun pStr pLine =>
    if pLine = [newline] then pStr else pStr ++ strip pLine ++ [comma]) []

/-- A server as the file names it. -/
structure Server where
  addr : List UInt8
  port : UInt16
  nonempty : addr ≠ []
  short : addr.length ≤ 15
  clean : ∀ c ∈ addr, c ≠ comma ∧ c ≠ colon ∧ c ≠ 0 ∧ isSpace c = false

/-- Its line, without the newline. -/
def Server.line (v : Server) : List UInt8 := v.addr ++ colon :: decimal v.port.toNat

/-- Its entry of `portal_list`. -/
def Server.portal (v : Server) : IsPortal := ⟨v.addr, v.port⟩

/-- The lines of the file that are not empty: the number of servers, then the servers. -/
def fileFields (servers : List Server) : List (List UInt8) :=
  decimal servers.length :: servers.map Server.line

/-! ## Characters -/

/-- A character that ends nothing on the way through the three programs. -/
def Plain (c : UInt8) : Prop := c ≠ comma ∧ c ≠ 0 ∧ isSpace c = false

theorem isSpace_of_pySpace {c : UInt8} (h : pySpace c = true) : isSpace c = true := by
  have h := of_decide_eq_true h
  exact decide_eq_true (h.imp id .inl)

theorem plain_of_isDigit {c : UInt8} (h : isDigit c = true) : Plain c := by
  refine ⟨?_, ?_, isSpace_of_isDigit h⟩
  · rintro rfl
    exact absurd h (by decide)
  · rintro rfl
    exact absurd h (by decide)

theorem plain_decimal (n : Nat) : ∀ c ∈ decimal n, Plain c :=
  fun c hc => plain_of_isDigit (isDigit_of_mem_decimal c hc)

theorem Server.plain_line (v : Server) : ∀ c ∈ v.line, Plain c := by
  intro c hc
  rw [Server.line, List.mem_append, List.mem_cons] at hc
  rcases hc with hc | rfl | hc
  · exact ⟨(v.clean c hc).1, (v.clean c hc).2.2⟩
  · exact ⟨by decide, by decide, by decide⟩
  · exact plain_decimal _ c hc

theorem plain_fileFields (servers : List Server) :
    ∀ f ∈ fileFields servers, ∀ c ∈ f, Plain c := by
  intro f hf
  rcases List.mem_cons.mp hf with rfl | hf
  · exact plain_decimal _
  · obtain ⟨v, -, rfl⟩ := List.mem_map.mp hf
    exact v.plain_line

/-! ## Joining the lines -/

theorem strip_plain {s : List UInt8} (h : ∀ c ∈ s, pySpace c = false) : strip s = s := by
  have hdrop : s.dropWhile pySpace = s := by
    cases s with
    | nil => rfl
    | cons c s => exact List.dropWhile_cons_of_neg (by simp [h c List.mem_cons_self])
  rw [strip, hdrop, List.rdropWhile_eq_self_iff]
  intro hne
  simp [h _ (List.getLast_mem hne)]

theorem strip_newline {s : List UInt8} (h : ∀ c ∈ s, pySpace c = false) (hne : s ≠ []) :
    strip (s ++ [newline]) = s := by
  have hdrop : (s ++ [newline]).dropWhile pySpace = s ++ [newline] := by
    cases s with
    | nil => exact absurd rfl hne
    | cons c s => exact List.dropWhile_cons_of_neg (by simp [h c List.mem_cons_self])
  rw [strip, hdrop, List.rdropWhile_concat_pos _ _ _ (by decide), List.rdropWhile_eq_self_iff]
  intro hne
  simp [h _ (List.getLast_mem hne)]

/-- Every line but an empty one gets its comma. -/
theorem createHost_eq_join (file : List UInt8) :
    createHost file = joinFields comma
      (((splitLines newline file).filter fun l => decide (l ≠ [newline])).map strip) := by
  have hfold : ∀ (lines : List (List UInt8)) (acc : List UInt8),
      lines.foldl (fun pStr pLine =>
        if pLine = [newline] then pStr else pStr ++ strip pLine ++ [comma]) acc =
      acc ++ joinFields comma ((lines.filter fun l => decide (l ≠ [newline])).map strip) := by
    intro lines
    induction lines with
    | nil => simp [joinFields]
    | cons l lines ih =>
        intro acc
        rw [List.foldl_cons, ih]
        by_cases hl : l = [newline]
        · simp [hl]
        · simp [hl, joinFields]
  rw [createHost, hfold, List.nil_append]

theorem createHost_lines {fields lines : List (List UInt8)} {last : List UInt8}
    (hfields : (lines ++ [last]).filter (fun l => decide (l ≠ [])) = fields)
    (hplain : ∀ f ∈ fields, ∀ c ∈ f, Plain c) :
    createHost (lines.flatMap (· ++ [newline]) ++ last) = joinFields comma fields := by
  have hline : ∀ l ∈ lines ++ [last], ∀ c ∈ l, pySpace c = false := by
    intro l hl c hc
    have hmem : l ∈ fields := by
      rw [← hfields, List.mem_filter]
      exact ⟨hl, decide_eq_true (List.ne_nil_of_mem hc)⟩
    have hspace := (hplain l hmem c hc).2.2
    by_contra hpy
    rw [isSpace_of_pySpace (by simpa using hpy)] at hspace
    cases hspace
  have hnewline : ∀ l ∈ lines ++ [last], newline ∉ l := by
    intro l hl hmem
    exact absurd (hline l hl newline hmem) (by decide)
  have hlines : ∀ l : List (List UInt8), (∀ f ∈ l, ∀ c ∈ f, pySpace c = false) →
      ((l.map (· ++ [newline])).filter fun l => decide (l ≠ [newline])).map strip =
        l.filter fun l => decide (l ≠ []) := by
    intro l
    induction l with
    | nil => exact fun _ => rfl
    | cons f l ih =>
        intro hl
        obtain ⟨hf, hl⟩ := List.forall_mem_cons.mp hl
        by_cases hnil : f = []
        · simpa [hnil] using ih hl
        · simpa [hnil, strip_newline hf hnil] using ih hl
  rw [createHost_eq_join,
    splitLines_flatMap fun l hl => hnewline l (List.mem_append_left _ hl),
    splitLines_last (hnewline last (by simp)), List.filter_append, List.map_append,
    hlines lines fun l hl => hline l (List.mem_append_left _ hl), ← hfields, List.filter_append]
  congr 2
  by_cases hnil : last = []
  · simp [hnil]
  · have hlast : last ≠ [newline] := by
      rintro rfl
      exact hnewline [newline] (by simp) List.mem_cons_self
    simp [hnil, hlast, strip_plain (hline last (by simp))]

/-! ## Parsing it again -/

theorem plain_joinFields {fields : List (List UInt8)} (h : ∀ f ∈ fields, ∀ c ∈ f, Plain c) :
    ∀ c ∈ joinFields comma fields, c ≠ 0 ∧ isSpace c = false := by
  intro c hc
  obtain ⟨f, hf, hc⟩ := List.mem_flatMap.mp hc
  rcases List.mem_append.mp hc with hc | hc
  · exact (h f hf c hc).2
  · rw [List.mem_singleton.mp hc]
    decide

/-- A text without terminators and white space is stored as it is. -/
theorem portalText_of_plain {buf : List UInt8} (h : ∀ c ∈ buf, c ≠ 0 ∧ isSpace c = false) :
    cString buf = buf ∧ portalText buf = buf := by
  have hstring : cString buf = buf :=
    List.takeWhile_eq_self_iff.mpr fun c hc => decide_eq_true (h c hc).1
  refine ⟨hstring, ?_⟩
  rw [portalText, hstring]
  exact List.takeWhile_eq_self_iff.mpr fun c hc => by simp [(h c hc).2]

theorem scanInt_decimal (n : Nat) (rest : List UInt8)
    (hrest : ∀ c ∈ rest.head?, isDigit c = false) :
    scanInt (decimal n ++ rest) = Int32.ofInt n := by
  rw [scanInt, leadingInt_of_leadingNumber (leadingNumber_decimal n hrest)]

theorem toUInt16_ofInt (p : UInt16) : (Int32.ofInt (p.toNat : Int)).toUInt32.toUInt16 = p := by
  apply UInt16.toNat_inj.mp
  have hof : Int32.ofInt (p.toNat : Int) = Int32.ofNat p.toNat := rfl
  simp [hof]

/-- The parser gets the server of a line back. -/
theorem portalEntry_line (v : Server) (i : Nat) (rest : List UInt8) :
    portalEntry true i (some (v.line ++ comma :: rest)) = .ok (v.portal, some rest) := by
  have hcomma : comma ∉ v.line := fun hmem => (v.plain_line comma hmem).1 rfl
  have htail := fieldTail_append hcomma rest
  have hend : endAtComma (v.line ++ comma :: rest) =
      v.addr ++ colon :: (decimal v.port.toNat ++ 0 :: rest) := by
    rw [endAtComma, htail, fieldHead_append hcomma]
    simp [Server.line]
  have hcolon : (v.addr ++ colon :: (decimal v.port.toNat ++ 0 :: rest)).findIdx? (· = colon) =
      some v.addr.length := by
    have hnone : v.addr.findIdx? (· = colon) = none := by
      rw [List.findIdx?_eq_none_iff]
      exact fun c hc => decide_eq_false (v.clean c hc).2.1
    rw [List.findIdx?_append, hnone, List.findIdx?_cons, if_pos (by simp)]
    simp
  have hport : cString ((v.addr ++ colon :: (decimal v.port.toNat ++ 0 :: rest)).drop
      (v.addr.length + 1)) = decimal v.port.toNat ++ [] := by
    rw [← List.drop_drop, List.drop_left, List.drop_succ_cons, List.drop_zero, cString,
      List.takeWhile_append_of_pos fun c hc => decide_eq_true (plain_decimal _ c hc).2.1,
      List.takeWhile_cons_of_neg (by simp)]
  have hshort := v.short
  rw [portalEntry]
  simp only [hend, hcolon, hport, htail, List.take_left, scanInt_decimal v.port.toNat
    [] (by simp), toUInt16_ofInt]
  rw [if_neg (by decide), if_neg (by rw [addrSize]; omega)]
  rfl

theorem portalLoop_lines (servers : List Server) (i : Nat) :
    portalLoop true servers.length i (some (joinFields comma (servers.map Server.line))) =
      .ok (servers.map Server.portal) := by
  induction servers generalizing i with
  | nil => rfl
  | cons v servers ih =>
      rw [List.length_cons, portalLoop, List.map_cons, joinFields_cons, portalEntry_line]
      simp only [ih]
      rfl

/-- A text that fits has no more servers than characters. -/
theorem length_servers_le {servers : List Server}
    (h : rdmaScheme.length + (joinFields comma (fileFields servers)).length + 1 ≤
      maxPortalName) : servers.length ≤ maxPortalName := by
  have hfields := length_le_joinFields comma (fileFields servers)
  rw [fileFields, List.length_cons, List.length_map] at hfields
  rw [fileFields] at h
  omega

theorem portalParser_fields (a : Allocator) {servers : List Server}
    (hlen : servers.length ≤ maxPortalName) :
    ∃ p, portalParser a (joinFields comma (fileFields servers)) = .ok p ∧
      p.cbNum.toInt = servers.length ∧ p.portalList = servers.map Server.portal := by
  have hcomma : comma ∉ decimal servers.length := fun hmem => (plain_decimal _ comma hmem).1 rfl
  have htext : joinFields comma (fileFields servers) =
      decimal servers.length ++ comma :: joinFields comma (servers.map Server.line) :=
    joinFields_cons ..
  have hcount : portalCount (joinFields comma (fileFields servers)) =
      Int32.ofInt servers.length := by
    have hscan := scanInt_decimal servers.length [] (by simp)
    rw [List.append_nil] at hscan
    rw [portalCount, htext, fieldHead_append hcomma, hscan]
  have hint : (Int32.ofInt (servers.length : Int)).toInt = servers.length := by
    rw [maxPortalName] at hlen
    exact Int32.toInt_ofInt_of_le (by omega) (by omega)
  have hlisted : a.serves (portalBytes (Int32.ofInt servers.length)) = true := by
    refine a.small _ ?_
    rw [portalBytes_of_nonneg (by omega), hint, Int.toNat_natCast]
    exact Nat.mul_le_mul_left _ hlen
  have hloop := portalLoop_lines servers 0
  have htail : fieldTail comma (joinFields comma (fileFields servers)) =
      some (joinFields comma (servers.map Server.line)) := by
    rw [htext, fieldTail_append hcomma]
  rw [portalParser, hcount, hlisted, hint, Int.toNat_natCast, htail, hloop]
  exact ⟨_, rfl, hint, rfl⟩

/-- From the file to the session: `portal_list` has the servers of the file, in order.
Empty lines may stand anywhere, and a newline need not end the file. -/
theorem portal_round_trip (a : Allocator) (sessions : List (List UInt8)) (servers : List Server)
    {lines : List (List UInt8)} {last : List UInt8}
    (hfile : (lines ++ [last]).filter (fun l => decide (l ≠ [])) = fileFields servers)
    (hfits : (rdmaScheme ++ createHost (lines.flatMap (· ++ [newline]) ++ last)).length + 1 ≤
      maxPortalName) :
    ∃ p, portalAttrStore a sessions (createHost (lines.flatMap (· ++ [newline]) ++ last)) =
        .ok (some p) ∧
      p.cbNum.toInt = servers.length ∧ p.portalList = servers.map Server.portal := by
  rw [createHost_lines hfile (plain_fileFields servers), List.length_append] at hfits
  rw [createHost_lines hfile (plain_fileFields servers)]
  obtain ⟨hstring, hname⟩ := portalText_of_plain (plain_joinFields (plain_fileFields servers))
  -- the portals of other sessions have been cut at a comma, which this one has
  have hfind : findByPortal sessions (rdmaScheme ++ joinFields comma (fileFields servers)) =
      false := by
    rw [findByPortal, List.any_eq_false]
    intro portal _ heq
    have hmem : comma ∈ fieldHead comma portal := by
      rw [of_decide_eq_true heq, fileFields, joinFields_cons]
      simp
    exact not_mem_fieldHead hmem
  obtain ⟨p, hp, hnum, hlist⟩ := portalParser_fields a (length_servers_le hfits)
  refine ⟨p, ?_, hnum, hlist⟩
  rw [portalAttrStore, portalName_eq, hstring, hname, if_neg (by omega), hfind, if_neg (by decide),
    sessionPortals, if_neg (by rw [List.length_append]; omega), List.drop_left, hp]

theorem clean_of_all {addr : List UInt8}
    (h : addr.all (fun c => decide (c ≠ comma ∧ c ≠ colon ∧ c ≠ 0 ∧ isSpace c = false)) = true) :
    ∀ c ∈ addr, c ≠ comma ∧ c ≠ colon ∧ c ≠ 0 ∧ isSpace c = false :=
  fun c hc => of_decide_eq_true (List.all_eq_true.mp h c hc)

/-- Two servers, with empty lines before, between and behind their lines. -/
def twoServers : List Server :=
  [⟨[49, 48, 46, 48, 46, 48, 46, 49], 9400, by decide, by decide, clean_of_all rfl⟩,
    ⟨[49, 48, 46, 48, 46, 48, 46, 50], 65535, by decide, by decide, clean_of_all rfl⟩]

theorem portal_round_trip_twoServers :
    ∃ p, portalAttrStore kmalloc [] (createHost
        (([[], [50], [49, 48, 46, 48, 46, 48, 46, 49, 58, 57, 52, 48, 48], []] :
          List (List UInt8)).flatMap (· ++ [newline]) ++
          [49, 48, 46, 48, 46, 48, 46, 50, 58, 54, 53, 53, 51, 53])) = .ok (some p) ∧
      p.cbNum.toInt = 2 ∧ p.portalList = twoServers.map Server.portal :=
  portal_round_trip kmalloc [] twoServers (by decide) (by decide)

end Hydra.Manager
