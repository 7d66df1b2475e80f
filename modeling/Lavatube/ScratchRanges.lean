import Lavatube.Lib.AlignedLayout

/-!
# Scratch memory of acceleration structure builds

One command builds several acceleration structures, each with scratch memory of its own.  A replay
keeps the translated addresses if they seem to be usable with the sizes of its device; otherwise it
makes a buffer for all of them and lays them out in it.

* `replayPreCmdBuildAccelerationStructures` — what becomes of the addresses.
* `Right` — each range is in a buffer, aligned, and apart from the others.
* `Fits` — the condition.
* `scratch_right_iff` — the ranges are right exactly if it is met.
-/

namespace Lavatube
namespace ScratchRanges

open AlignedLayout

/-! ### Buffers and builds -/

/-- The part of a `trackedbuffer` that is read.  No range of addresses goes around the end of the
address space. -/
structure Buffer where
  deviceAddress : UInt64
  size : UInt64
  bound : Bool
  address_le : deviceAddress.toNat + size.toNat ≤ 2 ^ 64

/-- The tests of `find_buffer_by_replay_address`; the sum has 64 bits. -/
def Buffer.accepts (buffer : Buffer) (address size : UInt64) : Bool :=
  buffer.bound && buffer.deviceAddress ≠ 0 && buffer.size ≠ 0 && buffer.deviceAddress ≤ address &&
    address - buffer.deviceAddress + size ≤ buffer.size

/-- The best buffer behind one more; buffers are told apart by their places. -/
def bestBuffer (address size : UInt64) (best : Option (Buffer × Nat)) (entry : Buffer × Nat) :
    Option (Buffer × Nat) :=
  if entry.1.accepts address size then
    match best with
    | none => some entry
    | some taken => if entry.1.size > taken.1.size then some entry else some taken
  else best

/-- `find_buffer_by_replay_address`. -/
def findBufferByReplayAddress (buffers : List Buffer) (address size : UInt64) :
    Option (Buffer × Nat) := buffers.zipIdx.foldl (bestBuffer address size) none

/-- A build info with the sizes that the device of the replay asks for. -/
structure Build where
  geometryCount : UInt32
  update : Bool
  buildScratchSize : UInt64
  updateScratchSize : UInt64
  scratchAddress : UInt64

/-- The entry of `scratch_sizes`. -/
def Build.scratchSize (build : Build) : UInt64 :=
  if build.geometryCount = 0 then 0
  else if build.update then build.updateScratchSize
  else build.buildScratchSize

/-- The buffer of a build and its offset in it. -/
def Build.find (buffers : List Buffer) (build : Build) : Option (Buffer × Nat) :=
  findBufferByReplayAddress buffers build.scratchAddress build.scratchSize

def Build.offset (build : Build) (buffer : Buffer) : UInt64 :=
  build.scratchAddress - buffer.deviceAddress

/-! ### Preserved addresses -/

/-- The first loop of `replay_can_preserve_as_scratch_addresses`. -/
def allFound (buffers : List Buffer) (builds : List Build) : Bool :=
  builds.all fun build => build.scratchSize = 0 ||
    (build.scratchAddress ≠ 0 && (build.find buffers).isSome)

/-- The test of two builds; the ends have 64 bits. -/
def pairApart (buffers : List Buffer) (a b : Build) : Bool :=
  match a.find buffers, b.find buffers with
  | some first, some second =>
      first.2 ≠ second.2 ||
        !(a.offset first.1 < b.offset second.1 + b.scratchSize &&
          b.offset second.1 < a.offset first.1 + a.scratchSize)
  | _, _ => false

/-- The two nested loops. -/
def allApart (buffers : List Buffer) : List Build → Bool
  | [] => true
  | build :: builds =>
      (build.scratchSize = 0 || (build.find buffers).isSome && builds.all fun other =>
        other.scratchSize = 0 || pairApart buffers build other) && allApart buffers builds

/-- `replay_can_preserve_as_scratch_addresses`. -/
def replayCanPreserveAsScratchAddresses (buffers : List Buffer) (builds : List Build) : Bool :=
  allFound buffers builds && (builds.length ≤ 1 || allApart buffers builds)

/-! ### New addresses -/

/-- The device of the replay: the least alignment of scratch memory, and the device address of a new
buffer, or a failure. -/
structure Device where
  minScratchOffsetAlignment : UInt32
  createInternalBuffer : UInt64 → Option UInt64

/-- `replay_get_as_scratch_alignment`. -/
def Device.scratchAlignment (device : Device) : UInt64 :=
  max 1 device.minScratchOffsetAlignment.toUInt64

/-- The alignment is a power of two, and a new buffer begins at a multiple of it and lies in the
address space. -/
structure Device.Lawful (device : Device) : Prop where
  power : ∃ k, device.minScratchOffsetAlignment.toNat = 2 ^ k
  aligned : ∀ size base, device.createInternalBuffer size = some base →
    device.scratchAlignment.toNat ∣ base.toNat
  inSpace : ∀ size base, device.createInternalBuffer size = some base →
    base.toNat + size.toNat ≤ 2 ^ 64

/-- `align_device_size`. -/
def alignDeviceSize (value alignment : UInt64) : UInt64 := maskUp value alignment

/-- The loop that adds up the sizes. -/
def totalScratchSize (alignment : UInt64) : UInt64 → List Build → UInt64
  | total, [] => total
  | total, build :: builds =>
      if build.scratchSize = 0 then totalScratchSize alignment total builds
      else
        totalScratchSize alignment (alignDeviceSize total alignment + build.scratchSize) builds

/-- The loop that gives out addresses. -/
def assignAddresses (alignment base : UInt64) : UInt64 → List Build → List Build
  | _, [] => []
  | offset, build :: builds =>
      if build.scratchSize = 0 then build :: assignAddresses alignment base offset builds
      else
        { build with scratchAddress := base + alignDeviceSize offset alignment } ::
          assignAddresses alignment base (alignDeviceSize offset alignment + build.scratchSize)
            builds

/-- A new buffer: its address and its size. -/
structure InternalBuffer where
  deviceAddress : UInt64
  size : UInt64

/-- `replay_pre_vkCmdBuildAccelerationStructuresKHR`, as far as scratch memory is concerned: the
builds afterwards and the new buffer; `none` is an abort. -/
def replayPreCmdBuildAccelerationStructures (device : Device) (buffers : List Buffer)
    (builds : List Build) : Option (List Build × Option InternalBuffer) :=
  let total := totalScratchSize device.scratchAlignment 0 builds
  if replayCanPreserveAsScratchAddresses buffers builds then some (builds, none)
  else if total = 0 then some (builds, none)
  else
    (device.createInternalBuffer total).map fun base =>
      (assignAddresses device.scratchAlignment base 0 builds, some ⟨base, total⟩)

/-! ### What is right -/

/-- The scratch range of a build lies inside a range of addresses. -/
def Build.InsideRange (build : Build) (address size : UInt64) : Prop :=
  address.toNat ≤ build.scratchAddress.toNat ∧
    build.scratchAddress.toNat + build.scratchSize.toNat ≤ address.toNat + size.toNat

/-- The scratch ranges of two builds have no byte in common. -/
def Build.Apart (a b : Build) : Prop :=
  a.scratchAddress.toNat + a.scratchSize.toNat ≤ b.scratchAddress.toNat ∨
    b.scratchAddress.toNat + b.scratchSize.toNat ≤ a.scratchAddress.toNat

/-- A buffer with memory and an address. -/
def Buffer.Live (buffer : Buffer) : Prop := buffer.bound = true ∧ buffer.deviceAddress ≠ 0

/-- **The scratch ranges are right**: each one lies in the new buffer, or in a live one if there is
no new one, begins at a multiple of the alignment, and has no byte in common with another one. -/
structure Right (alignment : UInt64) (buffers : List Buffer) (builds : List Build)
    (created : Option InternalBuffer) : Prop where
  inside : ∀ build ∈ builds, build.scratchSize ≠ 0 →
    match created with
    | none => ∃ buffer ∈ buffers, buffer.Live ∧ build.InsideRange buffer.deviceAddress buffer.size
    | some internal => build.InsideRange internal.deviceAddress internal.size
  aligned : ∀ build ∈ builds, build.scratchSize ≠ 0 →
    alignment.toNat ∣ build.scratchAddress.toNat
  apart : builds.Pairwise fun a b => a.scratchSize ≠ 0 → b.scratchSize ≠ 0 → a.Apart b

/-- The exact end of the ranges that are laid out anew. -/
def exactEnd (alignment : UInt64) (builds : List Build) : Nat :=
  layoutEnd alignment.toNat 0 (builds.map fun build => build.scratchSize.toNat)

/-- **The condition**: where the addresses are kept, they are aligned, no end in the chosen buffer
has more than 64 bits, and no two ranges whose buffers are different overlap; where they are not,
the end of the layout is a number of 64 bits. -/
def Fits (alignment : UInt64) (buffers : List Buffer) (builds : List Build) : Prop :=
  if replayCanPreserveAsScratchAddresses buffers builds then
    (∀ build ∈ builds, build.scratchSize ≠ 0 →
      alignment.toNat ∣ build.scratchAddress.toNat ∧
        ∀ found ∈ build.find buffers,
          (build.offset found.1).toNat + build.scratchSize.toNat < 2 ^ 64) ∧
      builds.Pairwise fun a b => a.scratchSize ≠ 0 → b.scratchSize ≠ 0 →
        (a.find buffers).map Prod.snd ≠ (b.find buffers).map Prod.snd → a.Apart b
  else exactEnd alignment builds < 2 ^ 64

/-! ## Looking for a buffer -/

section

variable {buffers : List Buffer} {address size : UInt64} {build a b : Build} {buffer : Buffer}
variable {found : Buffer × Nat}

theorem bestBuffer_eq_some {best : Option (Buffer × Nat)} {entry : Buffer × Nat}
    (hbest : bestBuffer address size best entry = some found) :
    best = some found ∨ (found = entry ∧ entry.1.accepts address size = true) := by
  unfold bestBuffer at hbest
  split_ifs at hbest with haccepts
  · split at hbest
    · exact .inr ⟨(Option.some.inj hbest).symm, haccepts⟩
    · split_ifs at hbest
      · exact .inr ⟨(Option.some.inj hbest).symm, haccepts⟩
      · exact .inl hbest
  · exact .inl hbest

theorem bestBuffer_isSome {best : Option (Buffer × Nat)} {entry : Buffer × Nat}
    (hthere : best.isSome ∨ entry.1.accepts address size = true) :
    (bestBuffer address size best entry).isSome := by
  unfold bestBuffer
  split_ifs with haccepts
  · split
    · rfl
    · split_ifs
      · rfl
      · rfl
  · exact hthere.resolve_right haccepts

theorem mem_of_foldl {best : Option (Buffer × Nat)} {entries : List (Buffer × Nat)}
    (hbest : entries.foldl (bestBuffer address size) best = some found) :
    best = some found ∨ (found ∈ entries ∧ found.1.accepts address size = true) := by
  induction entries generalizing best with
  | nil => exact .inl hbest
  | cons entry entries ih =>
      rcases ih hbest with heq | ⟨hmem, haccepts⟩
      · rcases bestBuffer_eq_some heq with hbest | ⟨rfl, haccepts⟩
        · exact .inl hbest
        · exact .inr ⟨List.mem_cons_self, haccepts⟩
      · exact .inr ⟨List.mem_cons_of_mem _ hmem, haccepts⟩

theorem foldl_isSome {best : Option (Buffer × Nat)} {entries : List (Buffer × Nat)}
    (hthere : best.isSome ∨ ∃ entry ∈ entries, entry.1.accepts address size = true) :
    (entries.foldl (bestBuffer address size) best).isSome := by
  induction entries generalizing best with
  | nil =>
      rcases hthere with hbest | ⟨entry, hentry, -⟩
      · exact hbest
      · cases hentry
  | cons entry entries ih =>
      refine ih ?_
      rcases hthere with hbest | ⟨other, hother, haccepts⟩
      · exact .inl (bestBuffer_isSome (.inl hbest))
      · rcases List.mem_cons.mp hother with rfl | hother
        · exact .inl (bestBuffer_isSome (.inr haccepts))
        · exact .inr ⟨other, hother, haccepts⟩

/-- The buffer that is found accepts the range. -/
theorem Build.find_spec (hfind : build.find buffers = some found) :
    buffers[found.2]? = some found.1 ∧
      found.1.accepts build.scratchAddress build.scratchSize = true := by
  rcases mem_of_foldl hfind with hnone | ⟨hmem, haccepts⟩
  · cases hnone
  · exact ⟨List.mem_zipIdx_iff_getElem?.mp hmem, haccepts⟩

theorem Build.find_isSome (hmem : buffer ∈ buffers)
    (haccepts : buffer.accepts build.scratchAddress build.scratchSize = true) :
    (build.find buffers).isSome := by
  obtain ⟨i, hi⟩ := List.mem_iff_getElem?.mp hmem
  exact foldl_isSome (.inr ⟨(buffer, i), List.mem_zipIdx_iff_getElem?.mpr hi, haccepts⟩)

theorem accepts_iff : buffer.accepts address size = true ↔
    buffer.Live ∧ buffer.size ≠ 0 ∧ buffer.deviceAddress ≤ address ∧
      address - buffer.deviceAddress + size ≤ buffer.size := by
  simp only [Buffer.accepts, Buffer.Live, Bool.and_eq_true, decide_eq_true_eq, and_assoc]

theorem toNat_offset (hle : buffer.deviceAddress ≤ build.scratchAddress) :
    (build.offset buffer).toNat = build.scratchAddress.toNat - buffer.deviceAddress.toNat :=
  UInt64.toNat_sub_of_le _ _ hle

/-- A range inside a live buffer is accepted by it. -/
theorem accepts_of_inside (hlive : buffer.Live) (hne : build.scratchSize ≠ 0)
    (hinside : build.InsideRange buffer.deviceAddress buffer.size) :
    buffer.accepts build.scratchAddress build.scratchSize = true := by
  obtain ⟨hle, hend⟩ := hinside
  have hsize := buffer.size.toNat_lt
  have hpos : build.scratchSize.toNat ≠ 0 := fun h => hne (UInt64.toNat_inj.mp h)
  have hoffset := toNat_offset (UInt64.le_iff_toNat_le.mpr hle)
  unfold Build.offset at hoffset
  rw [accepts_iff]
  refine ⟨hlive, ?_, UInt64.le_iff_toNat_le.mpr hle, ?_⟩
  · intro hzero
    rw [hzero, UInt64.toNat_zero] at hend
    omega
  · rw [UInt64.le_iff_toNat_le, UInt64.toNat_add, hoffset, Nat.mod_eq_of_lt (by omega)]
    omega

/-- An accepted range is inside the buffer if its end does not wrap. -/
theorem inside_of_accepts
    (haccepts : buffer.accepts build.scratchAddress build.scratchSize = true)
    (hsmall : (build.offset buffer).toNat + build.scratchSize.toNat < 2 ^ 64) :
    build.InsideRange buffer.deviceAddress buffer.size := by
  obtain ⟨-, -, hle, hend⟩ := accepts_iff.mp haccepts
  have hoffset := toNat_offset hle
  replace hend : build.offset buffer + build.scratchSize ≤ buffer.size := hend
  rw [UInt64.le_iff_toNat_le, UInt64.toNat_add, Nat.mod_eq_of_lt hsmall] at hend
  rw [UInt64.le_iff_toNat_le] at hle
  exact ⟨hle, by omega⟩

/-- In any buffer that accepts a range inside the address space, its end does not wrap. -/
theorem end_lt_of_accepts
    (haccepts : buffer.accepts build.scratchAddress build.scratchSize = true)
    (hspace : build.scratchAddress.toNat + build.scratchSize.toNat ≤ 2 ^ 64) :
    (build.offset buffer).toNat + build.scratchSize.toNat < 2 ^ 64 := by
  obtain ⟨⟨-, hne⟩, -, hle, -⟩ := accepts_iff.mp haccepts
  have hoffset := toNat_offset hle
  have hpos : buffer.deviceAddress.toNat ≠ 0 := fun h => hne (UInt64.toNat_inj.mp h)
  rw [UInt64.le_iff_toNat_le] at hle
  omega

/-- The test of two builds looks at ranges in one buffer only. -/
theorem pairApart_iff {first second : Buffer × Nat} (hfirst : a.find buffers = some first)
    (hsecond : b.find buffers = some second)
    (hfirstEnd : (a.offset first.1).toNat + a.scratchSize.toNat < 2 ^ 64)
    (hsecondEnd : (b.offset second.1).toNat + b.scratchSize.toNat < 2 ^ 64) :
    pairApart buffers a b = true ↔ (first.2 = second.2 → a.Apart b) := by
  obtain ⟨hfirstPlace, hfirstAccepts⟩ := Build.find_spec hfirst
  obtain ⟨hsecondPlace, hsecondAccepts⟩ := Build.find_spec hsecond
  unfold pairApart
  rw [hfirst, hsecond]
  simp only
  by_cases hsame : first.2 = second.2
  · have hbuffer : first.1 = second.1 := by
      rw [hsame, hsecondPlace] at hfirstPlace
      exact (Option.some.inj hfirstPlace).symm
    obtain ⟨-, -, hle, -⟩ := accepts_iff.mp hfirstAccepts
    obtain ⟨-, -, hle', -⟩ := accepts_iff.mp hsecondAccepts
    have hoffset := toNat_offset hle
    have hoffset' := toNat_offset hle'
    rw [UInt64.le_iff_toNat_le] at hle hle'
    rw [hbuffer] at hoffset hle hfirstEnd ⊢
    simp only [hsame, ne_eq, not_true_eq_false, decide_false, Bool.false_or, Bool.not_eq_true',
      Bool.and_eq_false_iff, decide_eq_false_iff_not, UInt64.lt_iff_toNat_lt, UInt64.toNat_add,
      Nat.mod_eq_of_lt hfirstEnd, Nat.mod_eq_of_lt hsecondEnd, forall_const, Build.Apart]
    omega
  · simp [hsame]

end

/-! ## Preserved addresses -/

section

variable {alignment : UInt64} {buffers : List Buffer} {builds : List Build}

theorem allApart_iff : allApart buffers builds = true ↔
    (∀ build ∈ builds, build.scratchSize ≠ 0 → (build.find buffers).isSome) ∧
      builds.Pairwise fun a b => a.scratchSize ≠ 0 → b.scratchSize ≠ 0 →
        pairApart buffers a b = true := by
  induction builds with
  | nil => simp [allApart]
  | cons build builds ih =>
      rw [allApart, Bool.and_eq_true, ih, List.forall_mem_cons, List.pairwise_cons]
      by_cases hzero : build.scratchSize = 0
      · simp [hzero]
      · simp only [hzero, decide_false, Bool.false_or, Bool.and_eq_true, List.all_eq_true,
          Bool.or_eq_true, decide_eq_true_eq, ne_eq, not_false_eq_true, forall_const,
          or_iff_not_imp_left]
        tauto

theorem allFound_iff : allFound buffers builds = true ↔ ∀ build ∈ builds, build.scratchSize ≠ 0 →
    build.scratchAddress ≠ 0 ∧ (build.find buffers).isSome := by
  simp only [allFound, List.all_eq_true, Bool.or_eq_true, decide_eq_true_eq, Bool.and_eq_true,
    or_iff_not_imp_left, ne_eq]

/-- What the tests say about addresses that are kept. -/
theorem preserve_iff : replayCanPreserveAsScratchAddresses buffers builds = true ↔
    (∀ build ∈ builds, build.scratchSize ≠ 0 →
      build.scratchAddress ≠ 0 ∧ (build.find buffers).isSome) ∧
      builds.Pairwise fun a b => a.scratchSize ≠ 0 → b.scratchSize ≠ 0 →
        pairApart buffers a b = true := by
  rw [replayCanPreserveAsScratchAddresses, Bool.and_eq_true, Bool.or_eq_true, allFound_iff,
    allApart_iff, decide_eq_true_eq]
  constructor
  · rintro ⟨hfound, hfew | ⟨-, hapart⟩⟩
    · refine ⟨hfound, ?_⟩
      match builds, hfew with
      | [], _ => exact List.Pairwise.nil
      | [build], _ => exact List.pairwise_singleton _ _
    · exact ⟨hfound, hapart⟩
  · rintro ⟨hfound, hapart⟩
    exact ⟨hfound, .inr ⟨fun build hbuild hne => (hfound build hbuild hne).2, hapart⟩⟩

/-- A range in a live buffer: it is found, and its end does not wrap in the buffer that is found. -/
theorem Right.found (hright : Right alignment buffers builds none) {build : Build}
    (hbuild : build ∈ builds) (hne : build.scratchSize ≠ 0) :
    build.scratchAddress ≠ 0 ∧ ∃ found, build.find buffers = some found ∧
      (build.offset found.1).toNat + build.scratchSize.toNat < 2 ^ 64 := by
  obtain ⟨buffer, hbuffer, hlive, hinside⟩ := hright.inside build hbuild hne
  have haccepts := accepts_of_inside hlive hne hinside
  obtain ⟨found, hfound⟩ := Option.isSome_iff_exists.mp (Build.find_isSome hbuffer haccepts)
  have hspace := buffer.address_le
  obtain ⟨hle, hend⟩ := hinside
  refine ⟨fun hzero => hlive.2 ?_, found, hfound,
    end_lt_of_accepts (Build.find_spec hfound).2 (hend.trans hspace)⟩
  rw [hzero, UInt64.toNat_zero] at hle
  exact UInt64.toNat_inj.mp (Nat.le_zero.mp hle)

/-- Where the ranges are right as they are, the addresses are kept. -/
theorem preserve_of_right (hright : Right alignment buffers builds none) :
    replayCanPreserveAsScratchAddresses buffers builds = true := by
  rw [preserve_iff]
  constructor
  · intro build hbuild hne
    obtain ⟨haddress, found, hfound, -⟩ := hright.found hbuild hne
    exact ⟨haddress, Option.isSome_iff_exists.mpr ⟨found, hfound⟩⟩
  · refine hright.apart.imp_of_mem fun {a b} ha hb hapart hne hne' => ?_
    obtain ⟨-, first, hfirst, hfirstEnd⟩ := hright.found ha hne
    obtain ⟨-, second, hsecond, hsecondEnd⟩ := hright.found hb hne'
    exact (pairApart_iff hfirst hsecond hfirstEnd hsecondEnd).mpr fun _ => hapart hne hne'

/-- **Preserved addresses** are right exactly if they meet the condition. -/
theorem preserved_right_iff
    (hpreserve : replayCanPreserveAsScratchAddresses buffers builds = true) :
    Right alignment buffers builds none ↔ Fits alignment buffers builds := by
  rw [Fits, if_pos hpreserve]
  constructor
  · intro hright
    refine ⟨fun build hbuild hne => ⟨hright.aligned build hbuild hne, fun found hfound => ?_⟩,
      hright.apart.imp fun hapart hne hne' _ => hapart hne hne'⟩
    obtain ⟨-, found', hfound', hend⟩ := hright.found hbuild hne
    cases hfound'.symm.trans hfound
    exact hend
  · rintro ⟨hall, hothers⟩
    obtain ⟨hfound, hpairs⟩ := preserve_iff.mp hpreserve
    have hthere : ∀ build ∈ builds, build.scratchSize ≠ 0 →
        ∃ found, build.find buffers = some found ∧
          (build.offset found.1).toNat + build.scratchSize.toNat < 2 ^ 64 := by
      intro build hbuild hne
      obtain ⟨found, hfind⟩ := Option.isSome_iff_exists.mp (hfound build hbuild hne).2
      exact ⟨found, hfind, (hall build hbuild hne).2 found hfind⟩
    refine ⟨fun build hbuild hne => ?_, fun build hbuild hne => (hall build hbuild hne).1, ?_⟩
    · obtain ⟨found, hfind, hend⟩ := hthere build hbuild hne
      obtain ⟨hplace, haccepts⟩ := Build.find_spec hfind
      exact ⟨found.1, List.mem_of_getElem? hplace, (accepts_iff.mp haccepts).1,
        inside_of_accepts haccepts hend⟩
    · refine (hpairs.and hothers).imp_of_mem fun {a b} ha hb h hne hne' => ?_
      obtain ⟨hpair, hother⟩ := h
      obtain ⟨first, hfirst, hfirstEnd⟩ := hthere a ha hne
      obtain ⟨second, hsecond, hsecondEnd⟩ := hthere b hb hne'
      by_cases hsame : first.2 = second.2
      · exact (pairApart_iff hfirst hsecond hfirstEnd hsecondEnd).mp (hpair hne hne') hsame
      · refine hother hne hne' ?_
        rw [hfirst, hsecond]
        exact fun h => hsame (Option.some.inj h)

end

/-! ## New addresses -/

section

variable {alignment base : UInt64} {k : Nat} {builds : List Build}

/-- The sizes of the scratch ranges. -/
def sizes (builds : List Build) : List Nat := builds.map fun build => build.scratchSize.toNat

theorem layoutEnd_cons {a stop : Nat} (build : Build) :
    layoutEnd a stop (sizes (build :: builds)) =
      if build.scratchSize = 0 then layoutEnd a stop (sizes builds)
      else layoutEnd a (alignUp a stop + build.scratchSize.toNat) (sizes builds) := by
  have hzero : build.scratchSize.toNat = 0 ↔ build.scratchSize = 0 :=
    UInt64.toNat_inj (b := 0)
  simp only [sizes, List.map_cons, layoutEnd, hzero]

section

variable (hk : k < 64) (hpower : alignment.toNat = 2 ^ k)
include hk hpower

theorem toNat_alignDeviceSize (offset : UInt64) :
    (alignDeviceSize offset alignment).toNat = alignUp (2 ^ k) offset.toNat % 2 ^ 64 :=
  toNat_maskUp offset hk hpower

/-- A range that ends within the numbers of 64 bits. -/
theorem toNat_next (offset size : UInt64)
    (hend : alignUp (2 ^ k) offset.toNat + size.toNat < 2 ^ 64) :
    (alignDeviceSize offset alignment).toNat = alignUp (2 ^ k) offset.toNat ∧
      (alignDeviceSize offset alignment + size).toNat =
        alignUp (2 ^ k) offset.toNat + size.toNat := by
  have halign := toNat_alignDeviceSize hk hpower offset
  rw [Nat.mod_eq_of_lt (by omega)] at halign
  exact ⟨halign, by rw [UInt64.toNat_add, halign, Nat.mod_eq_of_lt hend]⟩

/-- The total is the exact end. -/
theorem toNat_totalScratchSize (total : UInt64)
    (hend : layoutEnd (2 ^ k) total.toNat (sizes builds) < 2 ^ 64) :
    (totalScratchSize alignment total builds).toNat =
      layoutEnd (2 ^ k) total.toNat (sizes builds) := by
  induction builds generalizing total with
  | nil => rfl
  | cons build builds ih =>
      rw [layoutEnd_cons] at hend ⊢
      rw [totalScratchSize]
      split_ifs at hend ⊢
      · exact ih total hend
      · have hle := le_layoutEnd (Nat.two_pow_pos k)
          (alignUp (2 ^ k) total.toNat + build.scratchSize.toNat) (sizes builds)
        obtain ⟨-, hnext⟩ := toNat_next hk hpower total build.scratchSize (by omega)
        rw [← hnext] at hend ⊢
        exact ih _ hend

/-- **The layout**: the ranges are aligned, lie between the offset and the exact end, and have no
byte in common.  The induction is on the builds, with the offset in front of them. -/
theorem assignAddresses_spec (offset : UInt64)
    (hend : layoutEnd (2 ^ k) offset.toNat (sizes builds) < 2 ^ 64)
    (hspace : base.toNat + layoutEnd (2 ^ k) offset.toNat (sizes builds) ≤ 2 ^ 64)
    (hbase : 2 ^ k ∣ base.toNat) :
    (∀ build ∈ assignAddresses alignment base offset builds, build.scratchSize ≠ 0 →
      base.toNat + offset.toNat ≤ build.scratchAddress.toNat ∧
        build.scratchAddress.toNat + build.scratchSize.toNat ≤
          base.toNat + layoutEnd (2 ^ k) offset.toNat (sizes builds) ∧
        2 ^ k ∣ build.scratchAddress.toNat) ∧
      (assignAddresses alignment base offset builds).Pairwise fun a b =>
        a.scratchSize ≠ 0 → b.scratchSize ≠ 0 → a.Apart b := by
  induction builds generalizing offset with
  | nil => exact ⟨fun _ h => absurd h List.not_mem_nil, List.Pairwise.nil⟩
  | cons build builds ih =>
      rw [layoutEnd_cons] at hend hspace ⊢
      rw [assignAddresses]
      split_ifs at hend hspace ⊢ with hzero
      · obtain ⟨hall, hapart⟩ := ih offset hend hspace
        refine ⟨List.forall_mem_cons.mpr ⟨fun hne => absurd hzero hne, hall⟩,
          List.pairwise_cons.mpr ⟨fun _ _ hne => absurd hzero hne, hapart⟩⟩
      · have hup : offset.toNat ≤ alignUp (2 ^ k) offset.toNat := le_alignUp (Nat.two_pow_pos k)
        have hle := le_layoutEnd (Nat.two_pow_pos k)
          (alignUp (2 ^ k) offset.toNat + build.scratchSize.toNat) (sizes builds)
        obtain ⟨halign, hnext⟩ := toNat_next hk hpower offset build.scratchSize (by omega)
        have hpos : build.scratchSize.toNat ≠ 0 := fun h => hzero (UInt64.toNat_inj.mp h)
        have haddress : (base + alignDeviceSize offset alignment).toNat =
            base.toNat + alignUp (2 ^ k) offset.toNat := by
          rw [UInt64.toNat_add, halign, Nat.mod_eq_of_lt (by omega)]
        rw [← hnext] at hend hspace hle ⊢
        obtain ⟨hall, hapart⟩ := ih _ hend hspace
        constructor
        · rw [List.forall_mem_cons]
          refine ⟨fun _ => ⟨?_, ?_, ?_⟩, fun other hother hne => ?_⟩
          · show _ ≤ (base + alignDeviceSize offset alignment).toNat
            omega
          · show (base + alignDeviceSize offset alignment).toNat + build.scratchSize.toNat ≤ _
            omega
          · show _ ∣ (base + alignDeviceSize offset alignment).toNat
            rw [haddress]
            exact dvd_add hbase dvd_alignUp
          · obtain ⟨hstart, hstop, hdvd⟩ := hall other hother hne
            exact ⟨by omega, hstop, hdvd⟩
        · refine List.pairwise_cons.mpr ⟨fun other hother _ hne => .inl ?_, hapart⟩
          obtain ⟨hstart, -, -⟩ := hall other hother hne
          show (base + alignDeviceSize offset alignment).toNat + build.scratchSize.toNat ≤ _
          omega

/-- Where the exact end has more than 64 bits, a range begins at the start of the buffer again, or
goes beyond all numbers. -/
theorem assignAddresses_wraps (base offset : UInt64)
    (hend : 2 ^ 64 ≤ layoutEnd (2 ^ k) offset.toNat (sizes builds)) :
    ∃ build ∈ assignAddresses alignment base offset builds, build.scratchSize ≠ 0 ∧
      (build.scratchAddress = base ∨ ∃ start : UInt64, build.scratchAddress = base + start ∧
        2 ^ 64 ≤ start.toNat + build.scratchSize.toNat) := by
  induction builds generalizing offset with
  | nil => exact absurd hend (Nat.not_le.mpr offset.toNat_lt)
  | cons build builds ih =>
      rw [layoutEnd_cons] at hend
      rw [assignAddresses]
      split_ifs at hend ⊢ with hzero
      · obtain ⟨other, hother, hwrong⟩ := ih _ hend
        exact ⟨other, List.mem_cons_of_mem _ hother, hwrong⟩
      · -- either the aligned offset, or the end of the range, or a later range is the one
        have halign := toNat_alignDeviceSize hk hpower offset
        by_cases hwraps : alignUp (2 ^ k) offset.toNat < 2 ^ 64
        · rw [Nat.mod_eq_of_lt hwraps] at halign
          by_cases hfits : alignUp (2 ^ k) offset.toNat + build.scratchSize.toNat < 2 ^ 64
          · obtain ⟨-, hnext⟩ := toNat_next hk hpower offset build.scratchSize hfits
            rw [← hnext] at hend
            obtain ⟨other, hother, hwrong⟩ := ih _ hend
            exact ⟨other, List.mem_cons_of_mem _ hother, hwrong⟩
          · refine ⟨_, List.mem_cons_self, hzero, .inr ⟨_, rfl, ?_⟩⟩
            rw [halign]
            exact Nat.not_lt.mp hfits
        · have hexact : alignUp (2 ^ k) offset.toNat = 2 ^ 64 :=
            le_antisymm (alignUp_le offset.toNat_lt.le (pow_dvd_pow 2 hk.le)) (Nat.not_lt.mp hwraps)
          refine ⟨_, List.mem_cons_self, hzero, .inl ?_⟩
          rw [hexact, Nat.mod_self] at halign
          show base + alignDeviceSize offset alignment = base
          rw [UInt64.toNat_inj.mp (halign.trans UInt64.toNat_zero.symm), UInt64.add_zero]

end

end

/-! ## The call -/

section

variable {device : Device} {buffers : List Buffer} {builds result : List Build}
variable {created : Option InternalBuffer} {alignment base total : UInt64} {k : Nat}

theorem Device.Lawful.scratchAlignment (hlawful : device.Lawful) :
    ∃ k, k < 64 ∧ device.scratchAlignment.toNat = 2 ^ k := by
  obtain ⟨k, hpower⟩ := hlawful.power
  have hlt := device.minScratchOffsetAlignment.toNat_lt
  rw [hpower] at hlt
  have hk : k < 32 := (Nat.pow_lt_pow_iff_right (by norm_num)).mp hlt
  have hpos : 1 ≤ 2 ^ k := Nat.two_pow_pos k
  refine ⟨k, by omega, ?_⟩
  unfold Device.scratchAlignment
  show (if 1 ≤ device.minScratchOffsetAlignment.toUInt64 then
    device.minScratchOffsetAlignment.toUInt64 else 1).toNat = 2 ^ k
  rw [if_pos, UInt32.toNat_toUInt64, hpower]
  rw [UInt64.le_iff_toNat_le, UInt32.toNat_toUInt64, hpower]
  exact hpos

/-- Each size is part of the end. -/
theorem le_layoutEnd_of_mem {a : Nat} (ha : 0 < a) (stop : Nat) {build : Build}
    (hbuild : build ∈ builds) :
    build.scratchSize.toNat ≤ layoutEnd a stop (sizes builds) := by
  induction builds generalizing stop with
  | nil => cases hbuild
  | cons first builds ih =>
      rw [layoutEnd_cons]
      rcases List.mem_cons.mp hbuild with rfl | hbuild
      · split_ifs with hzero
        · rw [hzero]
          exact Nat.zero_le _
        · have hle := le_layoutEnd ha (alignUp a stop + build.scratchSize.toNat) (sizes builds)
          omega
      · split_ifs
        · exact ih _ hbuild
        · exact ih _ hbuild

/-- The ranges are not right in a layout whose exact end has more than 64 bits. -/
theorem not_right_of_wraps (hk : k < 64) (hpower : alignment.toNat = 2 ^ k)
    (hend : 2 ^ 64 ≤ layoutEnd (2 ^ k) 0 (sizes builds)) :
    ¬ Right alignment buffers (assignAddresses alignment base 0 builds) (some ⟨base, total⟩) := by
  intro hright
  have hinside : ∀ build ∈ assignAddresses alignment base 0 builds, build.scratchSize ≠ 0 →
      ∀ start : UInt64, build.scratchAddress = base + start →
        start.toNat + build.scratchSize.toNat < 2 ^ 64 := by
    intro build hbuild hne start hstart
    obtain ⟨hle, hstop⟩ := hright.inside build hbuild hne
    have hbase := base.toNat_lt
    have htotal := total.toNat_lt
    have hstartLt := start.toNat_lt
    rw [hstart, UInt64.toNat_add] at hle hstop
    simp only at hle hstop
    omega
  have hapart := hright.apart
  clear hright
  induction builds with
  | nil => exact absurd hend (by norm_num [sizes, layoutEnd])
  | cons build builds ih =>
      rw [layoutEnd_cons] at hend
      rw [assignAddresses] at hinside hapart
      split_ifs at hend hinside hapart with hzero
      · exact ih hend (fun other hother => hinside other (List.mem_cons_of_mem _ hother))
          (List.pairwise_cons.mp hapart).2
      · have hsize := build.scratchSize.toNat_lt
        obtain ⟨halign, hnext⟩ := toNat_next hk hpower 0 build.scratchSize (by
          rw [UInt64.toNat_zero, alignUp_zero]
          omega)
        rw [UInt64.toNat_zero, alignUp_zero] at halign hnext
        rw [alignUp_zero, ← hnext] at hend
        obtain ⟨other, hother, hne, hwrong⟩ := assignAddresses_wraps hk hpower base _ hend
        rcases hwrong with hsame | ⟨start, hstart, hbeyond⟩
        · -- the first range begins there, too
          have hpair := (List.pairwise_cons.mp hapart).1 other hother hzero hne
          have hpos : build.scratchSize.toNat ≠ 0 := fun h => hzero (UInt64.toNat_inj.mp h)
          have hpos' : other.scratchSize.toNat ≠ 0 := fun h => hne (UInt64.toNat_inj.mp h)
          have hfirst : base + alignDeviceSize 0 alignment = base := by
            rw [UInt64.toNat_inj.mp (halign.trans UInt64.toNat_zero.symm), UInt64.add_zero]
          rcases hpair with h | h
          · replace h : (base + alignDeviceSize 0 alignment).toNat + build.scratchSize.toNat ≤
              other.scratchAddress.toNat := h
            rw [hfirst, hsame] at h
            omega
          · replace h : other.scratchAddress.toNat + other.scratchSize.toNat ≤
              (base + alignDeviceSize 0 alignment).toNat := h
            rw [hfirst, hsame] at h
            omega
        · have hlt := hinside other (List.mem_cons_of_mem _ hother) hne start hstart
          omega

/-- Where the total is zero, nothing is laid out. -/
theorem right_of_total_zero (hk : k < 64) (hpower : alignment.toNat = 2 ^ k)
    (hzero : totalScratchSize alignment 0 builds = 0)
    (hend : exactEnd alignment builds < 2 ^ 64) : Right alignment buffers builds none := by
  rw [exactEnd, hpower] at hend
  have htotal := toNat_totalScratchSize hk hpower 0 hend
  have hnone : ∀ build ∈ builds, build.scratchSize = 0 := by
    intro build hbuild
    have hle := le_layoutEnd_of_mem (Nat.two_pow_pos k) 0 hbuild
    rw [hzero] at htotal
    refine UInt64.toNat_inj.mp (Nat.le_zero.mp (hle.trans_eq ?_))
    exact htotal.symm
  refine ⟨fun build hbuild hne => absurd (hnone build hbuild) hne,
    fun build hbuild hne => absurd (hnone build hbuild) hne, ?_⟩
  exact List.pairwise_of_forall_mem_list fun a ha _ _ hne => absurd (hnone a ha) hne

/-- **New addresses** are right exactly if the exact end of the layout is a number of 64 bits. -/
theorem new_right_iff (hlawful : device.Lawful)
    (hbase : device.createInternalBuffer (totalScratchSize device.scratchAlignment 0 builds) =
      some base) :
    Right device.scratchAlignment buffers (assignAddresses device.scratchAlignment base 0 builds)
        (some ⟨base, totalScratchSize device.scratchAlignment 0 builds⟩) ↔
      exactEnd device.scratchAlignment builds < 2 ^ 64 := by
  obtain ⟨k, hk, hpower⟩ := hlawful.scratchAlignment
  rw [exactEnd, hpower]
  constructor
  · intro hright
    by_contra hend
    exact not_right_of_wraps hk hpower (Nat.not_lt.mp hend) hright
  · intro hend
    have htotal := toNat_totalScratchSize hk hpower 0 hend
    have haligned := hlawful.aligned _ _ hbase
    have hspace := hlawful.inSpace _ _ hbase
    rw [hpower] at haligned
    rw [htotal] at hspace
    obtain ⟨hall, hapart⟩ := assignAddresses_spec hk hpower 0 hend hspace haligned
    refine ⟨fun build hbuild hne => ?_, fun build hbuild hne => ?_, hapart⟩
    · obtain ⟨hstart, hstop, -⟩ := hall build hbuild hne
      rw [UInt64.toNat_zero, Nat.add_zero] at hstart
      refine ⟨hstart, ?_⟩
      show _ ≤ base.toNat + (totalScratchSize device.scratchAlignment 0 builds).toNat
      rw [htotal]
      exact hstop
    · rw [hpower]
      exact (hall build hbuild hne).2.2

/-- **Scratch ranges are right** exactly if the condition is met. -/
theorem scratch_right_iff (hlawful : device.Lawful)
    (hpre : replayPreCmdBuildAccelerationStructures device buffers builds =
      some (result, created)) :
    Right device.scratchAlignment buffers result created ↔
      Fits device.scratchAlignment buffers builds := by
  unfold replayPreCmdBuildAccelerationStructures at hpre
  simp only at hpre
  split_ifs at hpre with hpreserve hzero
  · obtain ⟨rfl, rfl⟩ := Prod.mk.inj (Option.some.inj hpre)
    exact preserved_right_iff hpreserve
  · obtain ⟨rfl, rfl⟩ := Prod.mk.inj (Option.some.inj hpre)
    obtain ⟨k, hk, hpower⟩ := hlawful.scratchAlignment
    rw [Fits, if_neg hpreserve]
    constructor
    · -- ranges that are right as they are would have been kept
      intro hright
      exact absurd (preserve_of_right hright) hpreserve
    · intro hend
      exact right_of_total_zero hk hpower hzero hend
  · obtain ⟨base, hbase, heq⟩ := Option.map_eq_some_iff.mp hpre
    obtain ⟨rfl, rfl⟩ := Prod.mk.inj heq
    rw [Fits, if_neg hpreserve]
    exact new_right_iff hlawful hbase

end

/-! ### Examples -/

/-- A device that wants multiples of 256, and has memory at one place. -/
def someDevice : Device where
  minScratchOffsetAlignment := 256
  createInternalBuffer := fun size => if size ≤ 0x10000 then some 0x40000000 else none

theorem someDevice_lawful : someDevice.Lawful where
  power := ⟨8, rfl⟩
  aligned := fun size base hbase => by
    simp only [someDevice, Option.ite_none_right_eq_some, Option.some.injEq] at hbase
    obtain ⟨-, rfl⟩ := hbase
    decide
  inSpace := fun size base hbase => by
    simp only [someDevice, Option.ite_none_right_eq_some, Option.some.injEq] at hbase
    obtain ⟨hle, rfl⟩ := hbase
    rw [UInt64.le_iff_toNat_le] at hle
    have hend : (0x40000000 : UInt64).toNat + (0x10000 : UInt64).toNat ≤ 2 ^ 64 := by decide
    omega

/-- A build and an update without scratch memory. -/
def twoBuilds : List Build := [⟨1, false, 300, 0, 0⟩, ⟨1, true, 0, 100, 0⟩]

/-- They get some of a new buffer. -/
theorem scratch_right_new :
    ∃ result created, replayPreCmdBuildAccelerationStructures someDevice [] twoBuilds =
        some (result, created) ∧
      result.map Build.scratchAddress = [0x40000000, 0x40000200] ∧
      Right someDevice.scratchAlignment [] result created := by
  have hpre : replayPreCmdBuildAccelerationStructures someDevice [] twoBuilds =
      some (assignAddresses 256 0x40000000 0 twoBuilds, some ⟨0x40000000, 612⟩) := rfl
  refine ⟨_, _, hpre, by decide, (scratch_right_iff someDevice_lawful hpre).mpr ?_⟩
  rw [Fits, if_neg (by decide)]
  decide

/-- Two buffers at overlapping addresses. -/
def aliasingBuffers : List Buffer :=
  [⟨0x1000, 0x400, true, by decide⟩, ⟨0x1200, 0x800, true, by decide⟩]

/-- **Two ranges in different buffers** are kept, though they overlap. -/
theorem aliased_scratch_overlaps :
    replayPreCmdBuildAccelerationStructures someDevice aliasingBuffers
        [⟨1, false, 0x300, 0, 0x1000⟩, ⟨1, false, 0x400, 0, 0x1200⟩] =
      some ([⟨1, false, 0x300, 0, 0x1000⟩, ⟨1, false, 0x400, 0, 0x1200⟩], none) ∧
    ¬ Right someDevice.scratchAlignment aliasingBuffers
      [⟨1, false, 0x300, 0, 0x1000⟩, ⟨1, false, 0x400, 0, 0x1200⟩] none := by
  refine ⟨rfl, fun hright => ?_⟩
  have hapart := (List.pairwise_cons.mp hright.apart).1 _ (List.mem_singleton_self _)
    (by decide) (by decide)
  rcases hapart with h | h
  · exact absurd h (by decide)
  · exact absurd h (by decide)

end ScratchRanges
end Lavatube
