/-
  Manager/Devices.lean --- the devices of a session, from mkdir to rmdir.

  Source: `IS_device_make_group`, `device_attr_store` and `IS_device_drop` of
  `resilience_manager/is_configfs.c`; `IS_set_device_state`, `IS_file_find`,
  `IS_create_device` and `IS_destroy_device` of `is_main.c`; `IS_setup_queues`,
  `IS_destroy_queues`, `IS_register_block_device` and `IS_unregister_block_device` of
  `is_mq.c`.

  Writing to the `device` attribute creates queues, tag set, request queue and disk, and
  undoes what it did when one of them cannot be had.  Nothing keeps a second write from
  coming: as long as a device with a disk is not written to again, what is allocated is
  what the devices hold; a second write that succeeds loses the first disk and its queues
  for good.
-/
import Hydra.Foundation.Heap
import Hydra.Foundation.Run

set_option autoImplicit false

namespace Hydra.Manager

open Hydra.Foundation

/-! ## Devices -/

/-- `enum IS_dev_state`. -/
inductive DevState where
  | initializing | openning | running | offline
  deriving DecidableEq, Repr

/-- `IS_set_device_state`; `none` is `-EINVAL`, which leaves the state. -/
def isSetDeviceState (current : DevState) : DevState → Option DevState
  | .openning => if current = .offline ∨ current = .running then none else some .openning
  | .running => some .running
  | .offline => some .offline
  | .initializing => none

/-- `struct IS_file`: its own block, `file_name`, the state, and what it has allocated. -/
structure IsFile where
  self : Nat
  fileName : List UInt8
  index : Nat
  state : DevState
  queues : Ptr
  tagSet : Ptr
  queue : Ptr
  disk : Ptr
  deriving DecidableEq, Repr

/-- `devs_list` of a session, the heap, and `IS_indexes`. -/
structure Devices where
  heap : Heap
  isIndexes : Nat
  devs : List IsFile

/-- `IS_file_find`. -/
def isFileFind (name : List UInt8) (devs : List IsFile) : Option IsFile :=
  devs.find? fun f => decide (f.fileName = name)

/-- Which of the allocations of a creation succeed. -/
structure Granted where
  queues : Bool
  tagSet : Bool
  queue : Bool
  disk : Bool
  deriving DecidableEq, Repr

/-! ## Creating and destroying -/

/-- `IS_register_block_device`; the flag is success. -/
def isRegisterBlockDevice (g : Granted) (h : Heap) (f : IsFile) : Option (Heap × IsFile × Bool) :=
  let (tagSet, h) := h.alloc g.tagSet .null
  let f := { f with tagSet }
  if !g.tagSet then some (h, f, false)
  else
    let (queue, h) := h.alloc g.queue .err
    let f := { f with queue }
    if !g.queue then (h.release f.tagSet).map fun h => (h, f, false)
    else
      let (disk, h) := h.alloc g.disk .null
      let f := { f with disk }
      if !g.disk then
        (h.release f.queue).bind fun h => (h.release f.tagSet).map fun h => (h, f, false)
      else some (h, f, true)

/-- `IS_create_device`, without the mapping of slabs. -/
def isCreateDevice (name : List UInt8) (index : Nat) (g : Granted) (h : Heap) (f : IsFile) :
    Option (Heap × IsFile × Bool) :=
  let f := { f with fileName := name, index := index }
  let (queues, h) := h.alloc g.queues .null
  let f := { f with queues }
  if !g.queues then some (h, f, false)
  else
    (isRegisterBlockDevice g h f).bind fun (h, f, ok) =>
      if ok then
        some (h, { f with state := (isSetDeviceState f.state .running).getD f.state }, true)
      else (h.kfree f.queues).map fun h => (h, f, false)

/-- `IS_unregister_block_device` and `IS_destroy_queues` in `IS_destroy_device`. -/
def isDestroyDevice (h : Heap) (f : IsFile) : Option Heap :=
  if f.disk = .null then some h
  else
    (h.release f.queue).bind fun h =>
      (h.release f.tagSet).bind fun h =>
        (h.release f.disk).bind fun h => h.kfree f.queues

/-! ## The directory of a session -/

/-- `mkdir`, a write to `device`, `rmdir`. -/
inductive DeviceAction where
  | makeGroup (memory : Bool)
  | store (self : Nat) (name : List UInt8) (g : Granted)
  | drop (self : Nat)

/-- What a write returns. -/
inductive StoreResult where
  | exist
  | failed
  | stored
  deriving DecidableEq, Repr

/-- `list_for_each_entry` to the device of a directory. -/
def deviceAt (self : Nat) (devs : List IsFile) : Option IsFile :=
  devs.find? fun f => decide (f.self = self)

/-- The device in its place, changed. -/
def setDevice (devs : List IsFile) (f : IsFile) : List IsFile :=
  devs.map fun old => if old.self = f.self then f else old

/-- `IS_device_make_group`. -/
def isDeviceMakeGroup (memory : Bool) (s : Devices) : Devices :=
  if memory then
    let self := s.heap.next
    { s with
      heap := (s.heap.alloc true .null).2
      devs :=
        ⟨self, [], 0, (isSetDeviceState .initializing .openning).getD .initializing, .null, .null,
          .null, .null⟩ :: s.devs }
  else s

/-- `device_attr_store`; `none` without such a device, or where the heap goes wrong. -/
def deviceAttrStore (self : Nat) (name : List UInt8) (g : Granted) (s : Devices) :
    Option (Devices × StoreResult) :=
  (deviceAt self s.devs).bind fun f =>
    if (isFileFind name s.devs).isSome then some (s, .exist)
    else
      (isCreateDevice name s.isIndexes g s.heap f).map fun (heap, f, ok) =>
        (⟨heap, s.isIndexes + 1, setDevice s.devs f⟩, if ok then .stored else .failed)

/-- `IS_device_drop`. -/
def isDeviceDrop (self : Nat) (s : Devices) : Option Devices :=
  (deviceAt self s.devs).bind fun f =>
    (isDestroyDevice s.heap f).bind fun heap =>
      (heap.kfree (.addr self)).map fun heap =>
        { s with heap, devs := s.devs.filter fun f => decide (f.self ≠ self) }

/-- One action. -/
def deviceStep (s : Devices) : DeviceAction → Option Devices
  | .makeGroup memory => some (isDeviceMakeGroup memory s)
  | .store self name g => (deviceAttrStore self name g s).map Prod.fst
  | .drop self => isDeviceDrop self s

/-- The directory is there, and a device with a disk is not written to again. -/
def OneDisk (s : Devices) : DeviceAction → Prop
  | .makeGroup _ => True
  | .store self _ _ => ∃ f, deviceAt self s.devs = some f ∧ f.disk = .null
  | .drop self => ∃ f, deviceAt self s.devs = some f

instance (s : Devices) (a : DeviceAction) : Decidable (OneDisk s a) :=
  match a with
  | .makeGroup _ => isTrue trivial
  | .store self _ _ =>
      decidable_of_iff ((deviceAt self s.devs).any fun f => decide (f.disk = .null)) (by
        simp [OneDisk, Option.any_eq_true])
  | .drop self => decidable_of_iff (deviceAt self s.devs).isSome Option.isSome_iff_exists

/-! ## What devices hold -/

/-- The blocks of a device. -/
def IsFile.holds (f : IsFile) : List Nat :=
  f.self ::
    if f.disk = .null then []
    else f.queues.blocks ++ f.tagSet.blocks ++ f.queue.blocks ++ f.disk.blocks

/-- The device is as `mkdir` left it, or a write has failed on it, or it has all its parts. -/
inductive IsFile.Whole (f : IsFile) : Prop where
  | opened (disk : f.disk = .null) (state : f.state = .openning)
  | created (q t r d : Nat) (queues : f.queues = .addr q) (tagSet : f.tagSet = .addr t)
      (queue : f.queue = .addr r) (disk : f.disk = .addr d) (state : f.state = .running)

/-- Nothing is lost and nothing is shared. -/
structure Balanced (s : Devices) : Prop where
  heap : s.heap.Holds (s.devs.flatMap IsFile.holds)
  whole : ∀ f ∈ s.devs, f.Whole
  indices : ((s.devs.filter fun f => decide (f.disk ≠ .null)).map IsFile.index).Nodup
  below : ∀ f ∈ s.devs, f.disk ≠ .null → f.index < s.isIndexes
  names : ((s.devs.map IsFile.fileName).filter fun name => decide (name ≠ [])).Nodup

/-- Registering takes three blocks or none. -/
theorem isRegisterBlockDevice_spec {h : Heap} {l : List Nat} (hh : h.Holds l) {f : IsFile}
    (hdisk : f.disk = .null) (g : Granted) :
    ∃ h' f' ok, isRegisterBlockDevice g h f = some (h', f', ok) ∧
      f' = { f with tagSet := f'.tagSet, queue := f'.queue, disk := f'.disk } ∧
      (ok = false → f'.disk = .null ∧ h'.Holds l) ∧
      (ok = true → ∃ t r d, f'.tagSet = .addr t ∧ f'.queue = .addr r ∧ f'.disk = .addr d ∧
        h'.Holds ([t, r, d] ++ l)) := by
  obtain ⟨queues, tagSet, queue, disk⟩ := g
  cases tagSet with
  | false => exact ⟨_, _, _, rfl, rfl, fun _ => ⟨hdisk, hh⟩, nofun⟩
  | true =>
      have htag := hh.alloc
      cases queue with
      | false =>
          obtain ⟨h', hfree, hh'⟩ := htag.release
          exact ⟨h', { f with tagSet := .addr h.next, queue := .err }, false,
            by simp [isRegisterBlockDevice, hfree], rfl, fun _ => ⟨hdisk, hh'⟩, nofun⟩
      | true =>
          have hqueue := htag.alloc
          cases disk with
          | false =>
              obtain ⟨h₁, hfree₁, hh₁⟩ := hqueue.release
              obtain ⟨h₂, hfree₂, hh₂⟩ := hh₁.release
              exact ⟨h₂,
                { f with tagSet := .addr h.next, queue := .addr (h.next + 1), disk := .null },
                false, by simp [isRegisterBlockDevice, hfree₁, hfree₂], rfl,
                fun _ => ⟨rfl, hh₂⟩, nofun⟩
          | true =>
              refine ⟨_, _, true, rfl, rfl, nofun, fun _ => ⟨_, _, _, rfl, rfl, rfl, ?_⟩⟩
              exact hqueue.alloc.of_perm
                ((List.reverse_perm [h.next, h.next + 1, h.next + 1 + 1]).append_right l)

/-- A write to a device without a disk takes four blocks or none. -/
theorem isCreateDevice_spec {h : Heap} {l : List Nat} (hh : h.Holds l) {f : IsFile}
    (hdisk : f.disk = .null) (name : List UInt8) (index : Nat) (g : Granted) :
    ∃ h' f' ok, isCreateDevice name index g h f = some (h', f', ok) ∧
      f'.self = f.self ∧ f'.fileName = name ∧ f'.index = index ∧
      (ok = false → f'.disk = .null ∧ f'.state = f.state ∧ h'.Holds l) ∧
      (ok = true → ∃ q t r d, f'.queues = .addr q ∧ f'.tagSet = .addr t ∧ f'.queue = .addr r ∧
        f'.disk = .addr d ∧ f'.state = .running ∧ h'.Holds ([q, t, r, d] ++ l)) := by
  cases hqueues : g.queues with
  | false =>
      exact ⟨h, { f with fileName := name, index := index, queues := .null }, false,
        by simp [isCreateDevice, hqueues], rfl, rfl, rfl, fun _ => ⟨hdisk, rfl, hh⟩, nofun⟩
  | true =>
      obtain ⟨h', f', ok, hregister, hframe, hfailed, hdone⟩ := isRegisterBlockDevice_spec
        (f := { f with fileName := name, index := index, queues := .addr h.next }) hh.alloc hdisk g
      have hkept : f'.queues = .addr h.next := by rw [hframe]
      cases ok with
      | false =>
          obtain ⟨hnull, hh'⟩ := hfailed rfl
          obtain ⟨h'', hfree, hh''⟩ := hh'.release
          refine ⟨h'', f', false, ?_, by rw [hframe], by rw [hframe], by rw [hframe],
            fun _ => ⟨hnull, by rw [hframe], hh''⟩, nofun⟩
          simp [isCreateDevice, hqueues, hregister, hkept, Heap.kfree, hfree]
      | true =>
          obtain ⟨t, r, d, htag, hqueue, hdisk', hh'⟩ := hdone rfl
          refine ⟨h', { f' with state := .running }, true, ?_, by rw [hframe], by rw [hframe],
            by rw [hframe], nofun, fun _ => ⟨h.next, t, r, d, hkept, htag, hqueue, hdisk', rfl, ?_⟩⟩
          · simp [isCreateDevice, hqueues, hregister, isSetDeviceState]
          · have hperm : ([t, r, d] ++ h.next :: l).Perm (h.next :: ([t, r, d] ++ l)) :=
              List.perm_middle
            exact hh'.of_perm hperm

/-- Registering changes the three parts only. -/
theorem isRegisterBlockDevice_frame {g : Granted} {h : Heap} {f : IsFile}
    {r : Heap × IsFile × Bool} (hregister : isRegisterBlockDevice g h f = some r) :
    r.2.1.self = f.self ∧ r.2.1.fileName = f.fileName ∧ r.2.1.queues = f.queues := by
  simp only [isRegisterBlockDevice] at hregister
  split at hregister
  · obtain rfl := Option.some.inj hregister
    exact ⟨rfl, rfl, rfl⟩
  · split at hregister
    · obtain ⟨h', -, rfl⟩ := Option.map_eq_some_iff.mp hregister
      exact ⟨rfl, rfl, rfl⟩
    · split at hregister
      · obtain ⟨h₁, -, hrest⟩ := Option.bind_eq_some_iff.mp hregister
        obtain ⟨h₂, -, rfl⟩ := Option.map_eq_some_iff.mp hrest
        exact ⟨rfl, rfl, rfl⟩
      · obtain rfl := Option.some.inj hregister
        exact ⟨rfl, rfl, rfl⟩

/-- Creating keeps the place of the device and leaves the name, also when it fails. -/
theorem isCreateDevice_frame {name : List UInt8} {index : Nat} {g : Granted} {h : Heap}
    {f : IsFile} {r : Heap × IsFile × Bool} (hcreate : isCreateDevice name index g h f = some r) :
    r.2.1.self = f.self ∧ r.2.1.fileName = name := by
  simp only [isCreateDevice] at hcreate
  split at hcreate
  · obtain rfl := Option.some.inj hcreate
    exact ⟨rfl, rfl⟩
  · obtain ⟨⟨h₁, f₁, ok⟩, hregister, hrest⟩ := Option.bind_eq_some_iff.mp hcreate
    obtain ⟨hself, hfile, -⟩ := isRegisterBlockDevice_frame hregister
    cases ok with
    | false =>
        obtain ⟨h₂, -, rfl⟩ := Option.map_eq_some_iff.mp hrest
        exact ⟨hself, hfile⟩
    | true =>
        obtain rfl := Option.some.inj hrest
        exact ⟨hself, hfile⟩

/-- Destroying a device gives its parts back. -/
theorem isDestroyDevice_spec {h : Heap} {l : List Nat} {f : IsFile} (hf : f.Whole)
    (hh : h.Holds (f.holds ++ l)) :
    ∃ h', isDestroyDevice h f = some h' ∧ h'.Holds (f.self :: l) := by
  cases hf with
  | opened hdisk hstate =>
      rw [IsFile.holds, if_pos hdisk] at hh
      exact ⟨h, if_pos hdisk, hh⟩
  | created q t r d hqueues htag hqueue hdisk hstate =>
      have hheld : f.holds ++ l = [f.self, q, t] ++ r :: (d :: l) := by
        simp [IsFile.holds, hqueues, htag, hqueue, hdisk, Ptr.blocks]
      rw [hheld] at hh
      obtain ⟨h₁, hfree₁, hh₁⟩ := hh.release_middle
      obtain ⟨h₂, hfree₂, hh₂⟩ := Heap.Holds.release_middle (l := [f.self, q]) hh₁
      obtain ⟨h₃, hfree₃, hh₃⟩ := Heap.Holds.release_middle (l := [f.self, q]) hh₂
      obtain ⟨h₄, hfree₄, hh₄⟩ := Heap.Holds.release_middle (l := [f.self]) hh₃
      refine ⟨h₄, ?_, hh₄⟩
      simp [isDestroyDevice, hqueues, htag, hqueue, hdisk, hfree₁, hfree₂, hfree₃, hfree₄,
        Heap.kfree]

/-! ## Places in the list -/

theorem deviceAt_split {self : Nat} {devs : List IsFile} {f : IsFile}
    (hat : deviceAt self devs = some f) : f.self = self ∧ ∃ pre post, devs = pre ++ f :: post := by
  have htest := List.find?_some hat
  exact ⟨of_decide_eq_true htest, List.append_of_mem (List.mem_of_find?_eq_some hat)⟩

theorem flatMap_holds_split (pre post : List IsFile) (f : IsFile) :
    ((pre ++ f :: post).flatMap IsFile.holds).Perm
      (f.holds ++ (pre ++ post).flatMap IsFile.holds) := by
  rw [List.flatMap_append, List.flatMap_cons, List.flatMap_append]
  exact List.perm_append_comm_assoc ..

theorem others_sublist (pre post : List IsFile) (f : IsFile) :
    (pre ++ post).Sublist (pre ++ f :: post) :=
  List.Sublist.append_left (List.sublist_cons_self f post) pre

/-- No two devices share their own block. -/
theorem self_ne {h : Heap} {pre post : List IsFile} {f : IsFile}
    (hh : h.Holds ((pre ++ f :: post).flatMap IsFile.holds)) :
    ∀ f' ∈ pre ++ post, f'.self ≠ f.self := by
  intro f' hf' heq
  have hnodup := (hh.of_perm (flatMap_holds_split pre post f)).nodup_list
  refine List.disjoint_of_nodup_append hnodup (a := f.self) List.mem_cons_self ?_
  exact List.mem_flatMap.mpr ⟨f', hf', heq ▸ List.mem_cons_self⟩

theorem setDevice_split {pre post : List IsFile} {f f' : IsFile} (hself : f'.self = f.self)
    (hother : ∀ g ∈ pre ++ post, g.self ≠ f.self) :
    setDevice (pre ++ f :: post) f' = pre ++ f' :: post := by
  have hsame : ∀ l : List IsFile, (∀ g ∈ l, g ∈ pre ++ post) → setDevice l f' = l := by
    intro l hl
    refine (List.map_congr_left fun g hg => ?_).trans (List.map_id l)
    exact if_neg (hself ▸ hother g (hl g hg))
  rw [setDevice, List.map_append, List.map_cons, if_pos hself.symm, ← setDevice, ← setDevice,
    hsame pre fun g hg => List.mem_append_left _ hg,
    hsame post fun g hg => List.mem_append_right _ hg]

theorem filter_self_split {pre post : List IsFile} {f : IsFile}
    (hother : ∀ g ∈ pre ++ post, g.self ≠ f.self) :
    (pre ++ f :: post).filter (fun g => decide (g.self ≠ f.self)) = pre ++ post := by
  rw [List.filter_append, List.filter_cons_of_neg (by simp), ← List.filter_append]
  exact List.filter_eq_self.mpr fun g hg => decide_eq_true (hother g hg)

/-! ## The invariant -/

/-- A device takes the place of one without a disk. -/
theorem Balanced.replace {s : Devices} {heap : Heap} {pre post : List IsFile} {f f' : IsFile}
    (h : Balanced s) (hdevs : s.devs = pre ++ f :: post) (hdisk : f.disk = .null)
    (hheap : heap.Holds (f'.holds ++ (pre ++ post).flatMap IsFile.holds)) (hwhole : f'.Whole)
    (hindex : f'.index = s.isIndexes) (hnew : ∀ g ∈ pre ++ post, g.fileName ≠ f'.fileName) :
    Balanced ⟨heap, s.isIndexes + 1, pre ++ f' :: post⟩ := by
  have hkept : ∀ g ∈ pre ++ post, g ∈ s.devs := fun g hg => by
    rw [hdevs]
    exact (others_sublist pre post f).subset hg
  have hmem : ∀ g ∈ pre ++ f' :: post, g = f' ∨ g ∈ pre ++ post := fun g hg => by
    rcases List.mem_append.mp hg with hg | hg
    · exact .inr (List.mem_append_left _ hg)
    · rcases List.mem_cons.mp hg with rfl | hg
      · exact .inl rfl
      · exact .inr (List.mem_append_right _ hg)
  have hindices := h.indices
  have hnames := h.names
  rw [hdevs, List.filter_append, List.filter_cons_of_neg (by simp [hdisk]),
    ← List.filter_append] at hindices
  refine ⟨hheap.of_perm (flatMap_holds_split pre post f').symm, fun g hg => ?_, ?_,
    fun g hg hg' => ?_, ?_⟩
  · rcases hmem g hg with rfl | hg
    · exact hwhole
    · exact h.whole g (hkept g hg)
  · by_cases hdisk' : f'.disk = .null
    · rw [List.filter_append, List.filter_cons_of_neg (by simp [hdisk']), ← List.filter_append]
      exact hindices
    · rw [List.filter_append, List.filter_cons_of_pos (by simp [hdisk']), List.map_append,
        List.map_cons, List.nodup_middle, ← List.map_append, ← List.filter_append]
      refine List.nodup_cons.mpr ⟨fun hold => ?_, hindices⟩
      obtain ⟨g, hg, heq⟩ := List.mem_map.mp hold
      obtain ⟨hg, hdiskg⟩ := List.mem_filter.mp hg
      have hlt := h.below g (hkept g hg) (of_decide_eq_true hdiskg)
      omega
  · rcases hmem g hg with rfl | hg
    · exact Nat.lt_succ_of_le (Nat.le_of_eq hindex)
    · exact Nat.lt_succ_of_lt (h.below g (hkept g hg) hg')
  · have hrest :
        (((pre ++ post).map IsFile.fileName).filter fun name => decide (name ≠ [])).Nodup := by
      refine hnames.sublist (List.Sublist.filter _ (List.Sublist.map _ ?_))
      rw [hdevs]
      exact others_sublist pre post f
    rw [List.map_append, List.map_cons, List.filter_append, List.filter_cons]
    split
    · rw [List.nodup_middle, ← List.filter_append, ← List.map_append]
      refine List.nodup_cons.mpr ⟨fun hold => ?_, hrest⟩
      obtain ⟨g, hg, heq⟩ := List.mem_map.mp (List.mem_of_mem_filter hold)
      exact hnew g hg heq
    · rwa [← List.filter_append, ← List.map_append]

theorem Balanced.makeGroup {s : Devices} (h : Balanced s) (memory : Bool) :
    Balanced (isDeviceMakeGroup memory s) := by
  cases memory with
  | false => exact h
  | true =>
      refine ⟨h.heap.alloc, fun f hf => ?_, ?_, fun f hf hdisk => ?_, ?_⟩
      · rcases List.mem_cons.mp hf with rfl | hf
        · exact .opened rfl rfl
        · exact h.whole f hf
      · exact h.indices
      · rcases List.mem_cons.mp hf with rfl | hf
        · exact absurd rfl hdisk
        · exact h.below f hf hdisk
      · exact h.names

theorem Balanced.store {s : Devices} (h : Balanced s) {self : Nat} {name : List UInt8} {f : IsFile}
    (hat : deviceAt self s.devs = some f) (hdisk : f.disk = .null) (g : Granted) :
    ∃ r, deviceAttrStore self name g s = some r ∧ Balanced r.1 := by
  obtain ⟨-, pre, post, hdevs⟩ := deviceAt_split hat
  cases hfind : isFileFind name s.devs with
  | some f₀ =>
      exact ⟨(s, .exist), by
        rw [deviceAttrStore, hat, Option.bind_some, hfind, if_pos Option.isSome_some], h⟩
  | none =>
      have hheap := h.heap
      rw [hdevs] at hheap
      have hother := self_ne hheap
      have hsplit := hheap.of_perm (flatMap_holds_split pre post f)
      rw [IsFile.holds, if_pos hdisk] at hsplit
      obtain ⟨h', f', ok, hcreate, hself, hfile, hindex, hfailed, hdone⟩ :=
        isCreateDevice_spec hsplit hdisk name s.isIndexes g
      have hnew : ∀ k ∈ pre ++ post, k.fileName ≠ f'.fileName := fun k hk heq => by
        have hk : k ∈ s.devs := by
          rw [hdevs]
          exact (others_sublist pre post f).subset hk
        exact List.find?_eq_none.mp hfind k hk (decide_eq_true (heq.trans hfile))
      refine ⟨(⟨h', s.isIndexes + 1, setDevice s.devs f'⟩, if ok then .stored else .failed), ?_, ?_⟩
      · rw [deviceAttrStore, hat, Option.bind_some, hfind, if_neg (by simp), hcreate]
        rfl
      · rw [hdevs, setDevice_split hself hother]
        have hwhole : f.Whole := h.whole f (by rw [hdevs]; simp)
        cases ok with
        | false =>
            obtain ⟨hdisk', hstate, hheap'⟩ := hfailed rfl
            refine h.replace hdevs hdisk ?_ (.opened hdisk' ?_) hindex hnew
            · rw [IsFile.holds, if_pos hdisk', hself]
              exact hheap'
            · cases hwhole with
              | opened _ hopen => exact hstate.trans hopen
              | created _ _ _ d _ _ _ hd => exact absurd (hdisk.symm.trans hd) nofun
        | true =>
            obtain ⟨q, t, r, d, hqueues, htag, hqueue, hdisk', hstate, hheap'⟩ := hdone rfl
            refine h.replace hdevs hdisk ?_ (.created q t r d hqueues htag hqueue hdisk' hstate)
              hindex hnew
            have hheld : f'.holds = f.self :: [q, t, r, d] := by
              simp [IsFile.holds, hself, hqueues, htag, hqueue, hdisk', Ptr.blocks]
            have hperm : ∀ l, ([q, t, r, d] ++ f.self :: l).Perm (f.self :: ([q, t, r, d] ++ l)) :=
              fun _ => List.perm_middle
            rw [hheld]
            exact hheap'.of_perm (hperm _)

theorem Balanced.drop {s : Devices} (h : Balanced s) {self : Nat} {f : IsFile}
    (hat : deviceAt self s.devs = some f) : ∃ s', isDeviceDrop self s = some s' ∧ Balanced s' := by
  obtain ⟨hself, pre, post, hdevs⟩ := deviceAt_split hat
  have hheap := h.heap
  rw [hdevs] at hheap
  have hother := self_ne hheap
  obtain ⟨h₁, hdestroy, hh₁⟩ := isDestroyDevice_spec (h.whole f (by rw [hdevs]; simp))
    (hheap.of_perm (flatMap_holds_split pre post f))
  obtain ⟨h₂, hfree, hh₂⟩ := hh₁.release
  have hsub : (pre ++ post).Sublist s.devs := by
    rw [hdevs]
    exact others_sublist pre post f
  refine ⟨⟨h₂, s.isIndexes, pre ++ post⟩, ?_, hh₂, fun k hk => h.whole k (hsub.subset hk),
    h.indices.sublist ((hsub.filter _).map _), fun k hk => h.below k (hsub.subset hk),
    h.names.sublist ((hsub.map _).filter _)⟩
  rw [isDeviceDrop, hat, Option.bind_some, hdestroy, Option.bind_some, ← hself, Heap.kfree, hfree,
    Option.map_some, hdevs, filter_self_split hother]

theorem Balanced.step {s : Devices} (h : Balanced s) {a : DeviceAction} (hguard : OneDisk s a) :
    ∃ s', deviceStep s a = some s' ∧ Balanced s' := by
  cases a with
  | makeGroup memory => exact ⟨_, rfl, h.makeGroup memory⟩
  | store self name g =>
      obtain ⟨f, hat, hdisk⟩ := hguard
      obtain ⟨r, hr, hbalanced⟩ := h.store hat hdisk g
      exact ⟨r.1, by rw [deviceStep, hr, Option.map_some], hbalanced⟩
  | drop self =>
      obtain ⟨f, hat⟩ := hguard
      exact h.drop hat

/-- A session without devices. -/
def noDevices (next isIndexes : Nat) : Devices := ⟨⟨next, []⟩, isIndexes, []⟩

theorem balanced_of_reach {next isIndexes : Nat} {s : Devices}
    (hrun : Reach deviceStep OneDisk (noDevices next isIndexes) s) : Balanced s := by
  refine hrun.invariant ⟨⟨nofun, .nil, .nil⟩, nofun, .nil, nofun, .nil⟩ fun u a v hu hguard hv => ?_
  obtain ⟨v', hv', hbalanced⟩ := hu.step hguard
  obtain rfl := Option.some.inj (hv.symm.trans hv')
  exact hbalanced

/-- In every run in which no device with a disk is written to again, whatever allocations
fail: what is live is what the devices hold, devices are whole, their minors and the names
written differ, no action goes wrong, and without devices nothing is left. -/
theorem devices_balanced {next isIndexes : Nat} {s : Devices}
    (hrun : Reach deviceStep OneDisk (noDevices next isIndexes) s) :
    Balanced s ∧ (s.devs = [] → s.heap.live = []) ∧
      ∀ a, OneDisk s a → ∃ s', deviceStep s a = some s' := by
  have hbalanced := balanced_of_reach hrun
  refine ⟨hbalanced, fun hnone => ?_, fun a hguard => ?_⟩
  · have hperm := hbalanced.heap.perm
    rw [hnone] at hperm
    exact hperm.eq_nil
  · obtain ⟨s', hs', -⟩ := hbalanced.step hguard
    exact ⟨s', hs'⟩

/-- Everything can be had, and everything but the disk. -/
def plenty : Granted := ⟨true, true, true, true⟩

@[inherit_doc plenty]
def diskless : Granted := ⟨true, true, true, false⟩

/-- Two devices, one of them without a disk, and both removed. -/
def twoDevices : List DeviceAction :=
  [.makeGroup true, .makeGroup true, .store 0 [97] diskless, .store 1 [98] plenty, .drop 0, .drop 1]

theorem devices_balanced_removed :
    ∃ s, runActions deviceStep (noDevices 0 0) twoDevices = some s ∧ s.isIndexes = 2 ∧
      s.heap.live = [] := by
  obtain ⟨s, hs⟩ : ∃ s, runActions deviceStep (noDevices 0 0) twoDevices = some s :=
    Option.isSome_iff_exists.mp (by decide)
  have hseen : (runActions deviceStep (noDevices 0 0) twoDevices).map
      (fun s => (s.isIndexes, s.devs)) = some (2, []) := by decide
  rw [hs] at hseen
  obtain ⟨hindexes, hdevs⟩ := Prod.mk.inj (Option.some.inj hseen)
  have hrun : Reach deviceStep OneDisk (noDevices 0 0) s := reach_of_runActions hs (by decide)
  obtain ⟨-, hempty, -⟩ := devices_balanced hrun
  exact ⟨s, hs, hindexes, hempty hdevs⟩

/-! ## A second disk -/

/-- No pointer of the device is to block `n`, whether the block is still there or not. -/
structure IsFile.Avoids (n : Nat) (f : IsFile) : Prop where
  self : f.self ≠ n
  queues : f.queues ≠ .addr n
  tagSet : f.tagSet ≠ .addr n
  queue : f.queue ≠ .addr n
  disk : f.disk ≠ .addr n

theorem IsFile.not_avoids_of_holds {f : IsFile} {n : Nat} (hn : n ∈ f.holds) : ¬f.Avoids n := by
  intro hf
  have hblocks : ∀ {p : Ptr}, n ∈ p.blocks → p = .addr n := fun {p} hp => by
    cases p with
    | null => cases hp
    | err => cases hp
    | addr k => rw [List.mem_singleton.mp hp]
  rw [IsFile.holds, List.mem_cons] at hn
  rcases hn with hself | hn
  · exact hf.self hself.symm
  · split at hn
    · cases hn
    · simp only [List.mem_append] at hn
      rcases hn with ((hn | hn) | hn) | hn
      · exact hf.queues (hblocks hn)
      · exact hf.tagSet (hblocks hn)
      · exact hf.queue (hblocks hn)
      · exact hf.disk (hblocks hn)

/-- Live, and nobody's. -/
structure Lost (n : Nat) (s : Devices) : Prop where
  old : s.heap.Old n
  avoided : ∀ f ∈ s.devs, f.Avoids n

/-- No two devices point to one block, and none to a block that is still to come. -/
structure Unshared (s : Devices) : Prop where
  below : ∀ f ∈ s.devs, ∀ n, s.heap.next ≤ n → f.Avoids n
  apart : s.devs.Pairwise fun f k => ∀ n, f.Avoids n ∨ k.Avoids n

/-- Registering points the device to new blocks only. -/
theorem isRegisterBlockDevice_avoids {g : Granted} {h : Heap} {f : IsFile}
    {r : Heap × IsFile × Bool} (hregister : isRegisterBlockDevice g h f = some r) :
    h.next ≤ r.1.next ∧
      ∀ n, (n < h.next ∨ r.1.next ≤ n) → f.Avoids n → r.2.1.Avoids n := by
  have hne : ∀ {k n : Nat}, k ≠ n → Ptr.addr k ≠ .addr n := fun hkn heq => hkn (Ptr.addr.inj heq)
  obtain ⟨queues, tagSet, queue, disk⟩ := g
  cases tagSet with
  | false =>
      obtain rfl := Option.some.inj hregister
      exact ⟨Nat.le_refl h.next, fun n _ hf => ⟨hf.self, hf.queues, nofun, hf.queue, hf.disk⟩⟩
  | true =>
      cases queue with
      | false =>
          obtain ⟨h', hfree, rfl⟩ := Option.map_eq_some_iff.mp hregister
          have hnext : h'.next = h.next + 1 := Heap.release_next hfree
          refine ⟨show h.next ≤ h'.next by omega, fun n hn hf => ?_⟩
          have hn : n < h.next ∨ h'.next ≤ n := hn
          exact ⟨hf.self, hf.queues, hne (by omega), nofun, hf.disk⟩
      | true =>
          cases disk with
          | false =>
              obtain ⟨h₁, hfree₁, hrest⟩ := Option.bind_eq_some_iff.mp hregister
              obtain ⟨h₂, hfree₂, rfl⟩ := Option.map_eq_some_iff.mp hrest
              have hnext : h₂.next = h.next + 1 + 1 :=
                (Heap.release_next hfree₂).trans (Heap.release_next hfree₁)
              refine ⟨show h.next ≤ h₂.next by omega, fun n hn hf => ?_⟩
              have hn : n < h.next ∨ h₂.next ≤ n := hn
              exact ⟨hf.self, hf.queues, hne (by omega), hne (show h.next + 1 ≠ n by omega), nofun⟩
          | true =>
              obtain rfl := Option.some.inj hregister
              refine ⟨Nat.le_add_right h.next 3, fun n hn hf => ?_⟩
              have hn : n < h.next ∨ h.next + 3 ≤ n := hn
              exact ⟨hf.self, hf.queues, hne (show h.next ≠ n by omega),
                hne (show h.next + 1 ≠ n by omega), hne (show h.next + 2 ≠ n by omega)⟩

theorem isCreateDevice_avoids {index : Nat} {name : List UInt8} {g : Granted} {h : Heap}
    {f : IsFile} {r : Heap × IsFile × Bool} (hcreate : isCreateDevice name index g h f = some r) :
    h.next ≤ r.1.next ∧
      ∀ n, (n < h.next ∨ r.1.next ≤ n) → f.Avoids n → r.2.1.Avoids n := by
  cases hqueues : g.queues with
  | false =>
      rw [isCreateDevice, hqueues] at hcreate
      obtain rfl := Option.some.inj hcreate
      exact ⟨Nat.le_refl h.next, fun n _ hf => ⟨hf.self, nofun, hf.tagSet, hf.queue, hf.disk⟩⟩
  | true =>
      rw [isCreateDevice, hqueues] at hcreate
      obtain ⟨⟨h₁, f₁, ok⟩, hregister, hrest⟩ := Option.bind_eq_some_iff.mp hcreate
      obtain ⟨hle, havoids⟩ := isRegisterBlockDevice_avoids hregister
      have hle : h.next + 1 ≤ h₁.next := hle
      have havoids₁ : ∀ n, (n < h.next ∨ h₁.next ≤ n) → f.Avoids n → f₁.Avoids n := by
        intro n hn hf
        refine havoids n (hn.imp_left Nat.lt_succ_of_lt) ⟨hf.self, fun heq => ?_, hf.tagSet,
          hf.queue, hf.disk⟩
        have heq : h.next = n := Ptr.addr.inj heq
        omega
      cases ok with
      | false =>
          obtain ⟨h₂, hfree, rfl⟩ := Option.map_eq_some_iff.mp hrest
          have hnext := Heap.kfree_next hfree
          refine ⟨show h.next ≤ h₂.next by omega, fun n hn hf => havoids₁ n ?_ hf⟩
          have hn : n < h.next ∨ h₂.next ≤ n := hn
          omega
      | true =>
          obtain rfl := Option.some.inj hrest
          refine ⟨Nat.le_of_succ_le hle, fun n hn hf => ?_⟩
          obtain ⟨hself, hqueues, htag, hqueue, hdisk⟩ := havoids₁ n hn hf
          exact ⟨hself, hqueues, htag, hqueue, hdisk⟩

/-- Registering leaves a block alone that is not one of its own. -/
theorem isRegisterBlockDevice_keeps {n : Nat} {g : Granted} {h : Heap} {f : IsFile}
    {r : Heap × IsFile × Bool} (hold : h.Old n)
    (hregister : isRegisterBlockDevice g h f = some r) : r.1.Old n := by
  have hnew : h.next ≠ n := Nat.ne_of_gt hold.2
  have hnew' : h.next + 1 ≠ n := Nat.ne_of_gt (Nat.lt_succ_of_lt hold.2)
  obtain ⟨queues, tagSet, queue, disk⟩ := g
  cases tagSet with
  | false =>
      obtain rfl := Option.some.inj hregister
      exact hold
  | true =>
      cases queue with
      | false =>
          obtain ⟨h', hfree, rfl⟩ := Option.map_eq_some_iff.mp hregister
          have hkeeps := Heap.keeps_release (n := n) (by simpa using hnew) hfree
          exact hkeeps (Heap.keeps_alloc n h true .null hold)
      | true =>
          have hold₂ := Heap.keeps_alloc n _ true .err (Heap.keeps_alloc n h true .null hold)
          cases disk with
          | false =>
              obtain ⟨h₁, hfree₁, hrest⟩ := Option.bind_eq_some_iff.mp hregister
              obtain ⟨h₂, hfree₂, rfl⟩ := Option.map_eq_some_iff.mp hrest
              have hkeeps₁ := Heap.keeps_release (n := n) (by simpa using hnew') hfree₁
              have hkeeps₂ := Heap.keeps_release (n := n) (by simpa using hnew) hfree₂
              exact hkeeps₂ (hkeeps₁ hold₂)
          | true =>
              obtain rfl := Option.some.inj hregister
              exact Heap.keeps_alloc n _ true .null hold₂

theorem isCreateDevice_keeps {n index : Nat} {name : List UInt8} {g : Granted} {h : Heap}
    {f : IsFile} {r : Heap × IsFile × Bool} (hold : h.Old n)
    (hcreate : isCreateDevice name index g h f = some r) : r.1.Old n := by
  have hnew : h.next ≠ n := Nat.ne_of_gt hold.2
  cases hqueues : g.queues with
  | false =>
      rw [isCreateDevice, hqueues] at hcreate
      obtain rfl := Option.some.inj hcreate
      exact hold
  | true =>
      rw [isCreateDevice, hqueues] at hcreate
      obtain ⟨⟨h₁, f₁, ok⟩, hregister, hrest⟩ := Option.bind_eq_some_iff.mp hcreate
      obtain ⟨-, -, hkept⟩ := isRegisterBlockDevice_frame hregister
      have hold₁ := isRegisterBlockDevice_keeps (Heap.keeps_alloc n h true .null hold) hregister
      cases ok with
      | false =>
          obtain ⟨h₂, hfree, rfl⟩ := Option.map_eq_some_iff.mp hrest
          exact Heap.keeps_kfree (by rw [hkept]; simpa using hnew) hfree hold₁
      | true =>
          obtain rfl := Option.some.inj hrest
          exact hold₁

theorem isDestroyDevice_keeps {n : Nat} {h h' : Heap} {f : IsFile} (hold : h.Old n)
    (hf : f.Avoids n) (hdestroy : isDestroyDevice h f = some h') : h'.Old n := by
  rw [isDestroyDevice] at hdestroy
  split at hdestroy
  · obtain rfl := Option.some.inj hdestroy
    exact hold
  · obtain ⟨h₁, hfree₁, hrest⟩ := Option.bind_eq_some_iff.mp hdestroy
    obtain ⟨h₂, hfree₂, hrest⟩ := Option.bind_eq_some_iff.mp hrest
    obtain ⟨h₃, hfree₃, hfree₄⟩ := Option.bind_eq_some_iff.mp hrest
    exact Heap.keeps_kfree hf.queues hfree₄ (Heap.keeps_release hf.disk hfree₃
      (Heap.keeps_release hf.tagSet hfree₂ (Heap.keeps_release hf.queue hfree₁ hold)))

theorem isDestroyDevice_next {h h' : Heap} {f : IsFile}
    (hdestroy : isDestroyDevice h f = some h') : h'.next = h.next := by
  rw [isDestroyDevice] at hdestroy
  split at hdestroy
  · obtain rfl := Option.some.inj hdestroy
    rfl
  · obtain ⟨h₁, hfree₁, hrest⟩ := Option.bind_eq_some_iff.mp hdestroy
    obtain ⟨h₂, hfree₂, hrest⟩ := Option.bind_eq_some_iff.mp hrest
    obtain ⟨h₃, hfree₃, hfree₄⟩ := Option.bind_eq_some_iff.mp hrest
    rw [Heap.kfree_next hfree₄, Heap.release_next hfree₃, Heap.release_next hfree₂,
      Heap.release_next hfree₁]

theorem avoids_of_mem_setDevice {n : Nat} {devs : List IsFile} {f : IsFile}
    (hdevs : ∀ k ∈ devs, k.Avoids n) (hf : f.Avoids n) : ∀ k ∈ setDevice devs f, k.Avoids n := by
  intro k hk
  obtain ⟨old, hold, rfl⟩ := List.mem_map.mp hk
  split
  · exact hf
  · exact hdevs old hold

/-- Devices that share nothing are at different places. -/
theorem Unshared.others {s : Devices} (h : Unshared s) {pre post : List IsFile} {f : IsFile}
    (hdevs : s.devs = pre ++ f :: post) : ∀ k ∈ pre ++ post, ∀ n, f.Avoids n ∨ k.Avoids n := by
  have hapart := h.apart
  rw [hdevs, List.pairwise_append, List.pairwise_cons] at hapart
  obtain ⟨-, ⟨hpost, -⟩, hpre⟩ := hapart
  intro k hk n
  rcases List.mem_append.mp hk with hk | hk
  · exact (hpre k hk f List.mem_cons_self n).symm
  · exact hpost k hk n

theorem Unshared.self_ne {s : Devices} (h : Unshared s) {pre post : List IsFile} {f : IsFile}
    (hdevs : s.devs = pre ++ f :: post) : ∀ k ∈ pre ++ post, k.self ≠ f.self := by
  intro k hk heq
  rcases h.others hdevs k hk f.self with hf | hk
  · exact hf.self rfl
  · exact hk.self heq

theorem Unshared.step {s s' : Devices} (h : Unshared s) {a : DeviceAction}
    (hstep : deviceStep s a = some s') : Unshared s' := by
  cases a with
  | makeGroup memory =>
      obtain rfl := Option.some.inj hstep
      cases memory with
      | false => exact h
      | true =>
          -- the new device points to its own block, which nobody else can
          refine ⟨fun f hf n hn => ?_, List.pairwise_cons.mpr ⟨fun k hk n => ?_, h.apart⟩⟩
          · have hn : s.heap.next + 1 ≤ n := hn
            rcases List.mem_cons.mp hf with rfl | hf
            · exact ⟨Nat.ne_of_lt hn, nofun, nofun, nofun, nofun⟩
            · exact h.below f hf n (Nat.le_of_succ_le hn)
          · by_cases hn : n = s.heap.next
            · exact .inr (h.below k hk n (Nat.le_of_eq hn.symm))
            · exact .inl ⟨Ne.symm hn, nofun, nofun, nofun, nofun⟩
  | store self name g =>
      obtain ⟨r, hr, rfl⟩ := Option.map_eq_some_iff.mp hstep
      obtain ⟨f, hat, hrest⟩ := Option.bind_eq_some_iff.mp hr
      split at hrest
      · obtain rfl := Option.some.inj hrest
        exact h
      · obtain ⟨⟨heap, f', ok⟩, hcreate, rfl⟩ := Option.map_eq_some_iff.mp hrest
        obtain ⟨-, pre, post, hdevs⟩ := deviceAt_split hat
        obtain ⟨hle, havoids⟩ := isCreateDevice_avoids hcreate
        have hf : f ∈ s.devs := List.mem_of_find?_eq_some hat
        have hnew : ∀ k ∈ pre ++ post, ∀ n, f'.Avoids n ∨ k.Avoids n := by
          intro k hk n
          have hmem : k ∈ s.devs := by
            rw [hdevs]
            exact (others_sublist pre post f).subset hk
          rcases Nat.lt_or_ge n s.heap.next with hn | hn
          · exact (h.others hdevs k hk n).imp_left (havoids n (.inl hn))
          · exact .inr (h.below k hmem n hn)
        have hapart := h.apart
        refine ⟨fun k hk n hn => ?_, ?_⟩
        · have hn' : s.heap.next ≤ n := Nat.le_trans hle hn
          exact avoids_of_mem_setDevice (fun k hk => h.below k hk n hn')
            (havoids n (.inr hn) (h.below f hf n hn')) k hk
        · show (setDevice s.devs f').Pairwise _
          rw [hdevs] at hapart ⊢
          rw [setDevice_split (isCreateDevice_frame hcreate).1 (h.self_ne hdevs)]
          rw [List.pairwise_append, List.pairwise_cons] at hapart ⊢
          obtain ⟨hpre, ⟨-, hpost⟩, hacross⟩ := hapart
          refine ⟨hpre, ⟨fun k hk => hnew k (List.mem_append_right _ hk), hpost⟩,
            fun k hk j hj => ?_⟩
          rcases List.mem_cons.mp hj with rfl | hj
          · exact fun n => (hnew k (List.mem_append_left _ hk) n).symm
          · exact hacross k hk j (List.mem_cons_of_mem _ hj)
  | drop self =>
      obtain ⟨f, -, hrest⟩ := Option.bind_eq_some_iff.mp hstep
      obtain ⟨h₁, hdestroy, hrest⟩ := Option.bind_eq_some_iff.mp hrest
      obtain ⟨h₂, hfree, rfl⟩ := Option.map_eq_some_iff.mp hrest
      have hnext : h₂.next = s.heap.next :=
        (Heap.kfree_next hfree).trans (isDestroyDevice_next hdestroy)
      refine ⟨fun k hk n hn => h.below k (List.mem_of_mem_filter hk) n ?_,
        h.apart.sublist List.filter_sublist⟩
      rw [← hnext]
      exact hn

/-- A block that is nobody's stays so, whatever is done. -/
theorem Lost.step {n : Nat} {s s' : Devices} (h : Lost n s) {a : DeviceAction}
    (hstep : deviceStep s a = some s') : Lost n s' := by
  cases a with
  | makeGroup memory =>
      obtain rfl := Option.some.inj hstep
      cases memory with
      | false => exact h
      | true =>
          refine ⟨Heap.keeps_alloc n _ true .null h.old, fun f hf => ?_⟩
          rcases List.mem_cons.mp hf with rfl | hf
          · exact ⟨Nat.ne_of_gt h.old.2, nofun, nofun, nofun, nofun⟩
          · exact h.avoided f hf
  | store self name g =>
      obtain ⟨r, hr, rfl⟩ := Option.map_eq_some_iff.mp hstep
      obtain ⟨f, hat, hrest⟩ := Option.bind_eq_some_iff.mp hr
      split at hrest
      · obtain rfl := Option.some.inj hrest
        exact h
      · obtain ⟨⟨heap, f', ok⟩, hcreate, rfl⟩ := Option.map_eq_some_iff.mp hrest
        obtain ⟨-, havoids⟩ := isCreateDevice_avoids hcreate
        have hf' := havoids n (.inl h.old.2) (h.avoided f (List.mem_of_find?_eq_some hat))
        exact ⟨isCreateDevice_keeps h.old hcreate, avoids_of_mem_setDevice h.avoided hf'⟩
  | drop self =>
      obtain ⟨f, hat, hrest⟩ := Option.bind_eq_some_iff.mp hstep
      obtain ⟨h₁, hdestroy, hrest⟩ := Option.bind_eq_some_iff.mp hrest
      obtain ⟨h₂, hfree, rfl⟩ := Option.map_eq_some_iff.mp hrest
      have hf := h.avoided f (List.mem_of_find?_eq_some hat)
      have hself : f.self = self := (deviceAt_split hat).1
      have hold := isDestroyDevice_keeps h.old hf hdestroy
      refine ⟨Heap.keeps_kfree ?_ hfree hold, fun k hk => h.avoided k (List.mem_of_mem_filter hk)⟩
      intro heq
      exact hf.self (hself.trans (Ptr.addr.inj heq))

/-- A creation that succeeds points its device to new blocks. -/
theorem isCreateDevice_stored {n index : Nat} {name : List UInt8} {g : Granted} {h : Heap}
    {f : IsFile} {r : Heap × IsFile × Bool} (hold : h.Old n) (hself : f.self ≠ n)
    (hcreate : isCreateDevice name index g h f = some r) (hok : r.2.2 = true) :
    r.2.1.Avoids n := by
  obtain ⟨queues, tagSet, queue, disk⟩ := g
  have hne : ∀ j, Ptr.addr (h.next + j) ≠ .addr n := fun j heq => by
    have hlt := hold.2
    have heq : h.next + j = n := Ptr.addr.inj heq
    omega
  cases queues with
  | false =>
      obtain rfl := Option.some.inj hcreate
      cases hok
  | true =>
      obtain ⟨⟨h₁, f₁, ok⟩, hregister, hrest⟩ := Option.bind_eq_some_iff.mp hcreate
      cases ok with
      | false =>
          obtain ⟨h₂, -, rfl⟩ := Option.map_eq_some_iff.mp hrest
          cases hok
      | true =>
          obtain rfl := Option.some.inj hrest
          cases tagSet with
          | false => cases hregister
          | true =>
              cases queue with
              | false =>
                  obtain ⟨h₂, -, heq⟩ := Option.map_eq_some_iff.mp hregister
                  cases heq
              | true =>
                  cases disk with
                  | false =>
                      obtain ⟨h₂, -, heq⟩ := Option.bind_eq_some_iff.mp hregister
                      obtain ⟨h₃, -, heq⟩ := Option.map_eq_some_iff.mp heq
                      cases heq
                  | true =>
                      cases hregister
                      exact ⟨hself, hne 0, hne 1, hne 2, hne 3⟩

/-- The first time a device with a disk is written to again and the write succeeds, its first
disk and queues are lost: in every later state, whatever is done, they are live and no device
points to them. -/
theorem second_write_loses_disk {next isIndexes self : Nat} {name : List UInt8} {g : Granted}
    {s s' u : Devices} {f : IsFile}
    (hrun : Reach deviceStep OneDisk (noDevices next isIndexes) s)
    (hat : deviceAt self s.devs = some f) (hdisk : f.disk ≠ .null)
    (hstore : deviceAttrStore self name g s = some (s', .stored))
    (hlater : Reach deviceStep (fun _ _ => True) s' u) :
    f.holds.tail.length = 4 ∧ ∀ n ∈ f.holds.tail, n ∈ u.heap.live ∧ ∀ k ∈ u.devs, k.Avoids n := by
  have hbalanced := balanced_of_reach hrun
  have hunshared : Unshared s :=
    hrun.invariant ⟨nofun, .nil⟩ fun v a w hv _ hw => hv.step hw
  obtain ⟨hself, pre, post, hdevs⟩ := deviceAt_split hat
  have hheap := hbalanced.heap
  rw [hdevs] at hheap
  have hsplit := hheap.of_perm (flatMap_holds_split pre post f)
  have hfour : f.holds.tail.length = 4 := by
    have hwhole := hbalanced.whole f (List.mem_of_find?_eq_some hat)
    cases hwhole with
    | opened hnull _ => exact absurd hnull hdisk
    | created q t r d hqueues htag hqueue hdisk' _ =>
        simp [IsFile.holds, hqueues, htag, hqueue, hdisk', Ptr.blocks]
  refine ⟨hfour, fun n hn => ?_⟩
  have hheld : n ∈ f.holds := List.mem_of_mem_tail hn
  have hold : s.heap.Old n := by
    have hlive := hsplit.perm.mem_iff.mpr (List.mem_append_left _ hheld)
    exact ⟨hlive, hsplit.below n hlive⟩
  have hne : f.self ≠ n := fun heq => by
    have hnodup := (List.nodup_append.mp hsplit.nodup_list).1
    rw [IsFile.holds, List.nodup_cons] at hnodup
    exact hnodup.1 (heq ▸ hn)
  have hothers : ∀ k ∈ pre ++ post, k.Avoids n := fun k hk =>
    (hunshared.others hdevs k hk n).resolve_left (IsFile.not_avoids_of_holds hheld)
  have hlost : Lost n s' := by
    rw [deviceAttrStore, hat, Option.bind_some] at hstore
    split at hstore
    · cases hstore
    · obtain ⟨⟨heap, f', ok⟩, hcreate, heq⟩ := Option.map_eq_some_iff.mp hstore
      obtain ⟨rfl, hresult⟩ := Prod.mk.inj heq
      have hok : ok = true := by
        cases ok with
        | false => cases hresult
        | true => rfl
      have hf' := isCreateDevice_stored hold hne hcreate hok
      refine ⟨isCreateDevice_keeps hold hcreate, fun k hk => ?_⟩
      rw [hdevs, setDevice_split (isCreateDevice_frame hcreate).1 (self_ne hheap)] at hk
      rcases List.mem_append.mp hk with hk | hk
      · exact hothers k (List.mem_append_left _ hk)
      · rcases List.mem_cons.mp hk with rfl | hk
        · exact hf'
        · exact hothers k (List.mem_append_right _ hk)
  have hlost' : Lost n u := hlater.invariant (I := Lost n) hlost fun v a w hv _ hw => hv.step hw
  exact ⟨hlost'.old.1, hlost'.avoided⟩

/-- A device, its disk, a second disk, and the device removed: the first disk is still
there. -/
theorem second_write_loses_disk_removed :
    ∃ s s' u f, runActions deviceStep (noDevices 0 0)
        [.makeGroup true, .store 0 [97] plenty] = some s ∧
      deviceAttrStore 0 [98] plenty s = some (s', .stored) ∧ isDeviceDrop 0 s' = some u ∧
      deviceAt 0 s.devs = some f ∧ f.holds.tail = [1, 2, 3, 4] ∧
      ∀ n ∈ f.holds.tail, n ∈ u.heap.live := by
  obtain ⟨s, hs, s', hstore, u, hdrop, f, hat, hdisk, hheld⟩ :
      ∃ s, runActions deviceStep (noDevices 0 0)
          [.makeGroup true, .store 0 [97] plenty] = some s ∧
        ∃ s', deviceAttrStore 0 [98] plenty s = some (s', .stored) ∧
        ∃ u, isDeviceDrop 0 s' = some u ∧
        ∃ f, deviceAt 0 s.devs = some f ∧ f.disk = .addr 4 ∧ f.holds.tail = [1, 2, 3, 4] :=
    ⟨_, rfl, _, rfl, _, rfl, _, rfl, rfl, rfl⟩
  have hrun : Reach deviceStep OneDisk (noDevices 0 0) s := reach_of_runActions hs (by decide)
  have hlater : Reach deviceStep (fun _ _ => True) s' u :=
    Reach.snoc (a := .drop 0) .refl trivial hdrop
  obtain ⟨-, hlost⟩ := second_write_loses_disk hrun hat (by rw [hdisk]; exact nofun) hstore hlater
  exact ⟨s, s', u, f, hs, hstore, hdrop, hat, hheld, fun n hn => (hlost n hn).1⟩

/-! ## Names of failed devices -/

/-- The device of directory `self` has the name. -/
def Named (self : Nat) (name : List UInt8) (s : Devices) : Prop :=
  ∃ f ∈ s.devs, f.self = self ∧ f.fileName = name

/-- The action is about another directory. -/
def DeviceAction.Elsewhere (self : Nat) : DeviceAction → Prop
  | .makeGroup _ => True
  | .store self' _ _ => self' ≠ self
  | .drop self' => self' ≠ self

theorem Named.step {self : Nat} {name : List UInt8} {s s' : Devices} (h : Named self name s)
    {a : DeviceAction} (helse : a.Elsewhere self) (hstep : deviceStep s a = some s') :
    Named self name s' := by
  obtain ⟨f, hf, hself, hname⟩ := h
  cases a with
  | makeGroup memory =>
      obtain rfl := Option.some.inj hstep
      cases memory with
      | false => exact ⟨f, hf, hself, hname⟩
      | true => exact ⟨f, List.mem_cons_of_mem _ hf, hself, hname⟩
  | store self' name' g =>
      obtain ⟨r, hr, rfl⟩ := Option.map_eq_some_iff.mp hstep
      obtain ⟨k, hat, hrest⟩ := Option.bind_eq_some_iff.mp hr
      split at hrest
      · obtain rfl := Option.some.inj hrest
        exact ⟨f, hf, hself, hname⟩
      · obtain ⟨⟨heap, k', ok⟩, hcreate, rfl⟩ := Option.map_eq_some_iff.mp hrest
        have hk' : k'.self = self' :=
          (isCreateDevice_frame hcreate).1.trans (deviceAt_split hat).1
        refine ⟨f, List.mem_map.mpr ⟨f, hf, if_neg ?_⟩, hself, hname⟩
        rw [hself, hk']
        exact Ne.symm helse
  | drop self' =>
      obtain ⟨k, -, hrest⟩ := Option.bind_eq_some_iff.mp hstep
      obtain ⟨h₁, -, hrest⟩ := Option.bind_eq_some_iff.mp hrest
      obtain ⟨h₂, -, rfl⟩ := Option.map_eq_some_iff.mp hrest
      refine ⟨f, List.mem_filter.mpr ⟨hf, decide_eq_true ?_⟩, hself, hname⟩
      rw [hself]
      exact Ne.symm helse

/-- A write that failed takes its name with it: as long as nothing is done about its
directory, every write of that name in the session, to the same device too and whatever
memory there is by then, is refused with `-EEXIST`. -/
theorem failed_write_takes_name {self : Nat} {name : List UInt8} {g : Granted} {s s' u : Devices}
    (hstore : deviceAttrStore self name g s = some (s', .failed))
    (hlater : Reach deviceStep (fun _ a => a.Elsewhere self) s' u) {self' : Nat} {f : IsFile}
    (hat : deviceAt self' u.devs = some f) (g' : Granted) :
    deviceAttrStore self' name g' u = some (u, .exist) := by
  have hnamed : Named self name s' := by
    obtain ⟨k, hk, hrest⟩ := Option.bind_eq_some_iff.mp hstore
    split at hrest
    · cases hrest
    · obtain ⟨⟨heap, k', ok⟩, hcreate, heq⟩ := Option.map_eq_some_iff.mp hrest
      obtain ⟨rfl, -⟩ := Prod.mk.inj heq
      obtain ⟨hself, hname⟩ := isCreateDevice_frame hcreate
      refine ⟨k', List.mem_map.mpr ⟨k, List.mem_of_find?_eq_some hk, if_pos hself.symm⟩, ?_, hname⟩
      exact hself.trans (deviceAt_split hk).1
  obtain ⟨k, hk, -, hname⟩ : Named self name u :=
    hlater.invariant (I := Named self name) hnamed fun v a w hv helse hw => hv.step helse hw
  have hfind : (isFileFind name u.devs).isSome = true :=
    List.find?_isSome.mpr ⟨k, hk, decide_eq_true hname⟩
  rw [deviceAttrStore, hat, Option.bind_some, if_pos hfind]

/-- There was no memory for the disk; the same write again is refused. -/
theorem failed_write_takes_name_again :
    ∃ s s', runActions deviceStep (noDevices 0 0) [.makeGroup true] = some s ∧
      deviceAttrStore 0 [97] diskless s = some (s', .failed) ∧
      deviceAttrStore 0 [97] plenty s' = some (s', .exist) := by
  obtain ⟨s, hs, s', hstore, f, hat⟩ :
      ∃ s, runActions deviceStep (noDevices 0 0) [.makeGroup true] = some s ∧
        ∃ s', deviceAttrStore 0 [97] diskless s = some (s', .failed) ∧
        ∃ f, deviceAt 0 s'.devs = some f := ⟨_, rfl, _, rfl, _, rfl⟩
  exact ⟨s, s', hs, hstore, failed_write_takes_name hstore .refl hat plenty⟩

end Hydra.Manager
