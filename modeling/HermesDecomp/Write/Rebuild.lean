import HermesDecomp.Write.LayoutReadBack
import HermesDecomp.Write.StringEdits

/-!
# A rebuilt string region

A rebuild keeps an image up to a position in its string region, writes tables and storage of its
own from there, and keeps what follows the region.
-/

namespace HermesDecomp.Strings

open Bytes Outcome Serialize StringStorage HermesDecomp.Parser

variable {sha1 : Sha1}

/-- Tables and storage in place of a string region from `start` on. The `front` is
what is rewritten before the small entries. -/
structure Rebuild (image : TidyImage sha1) where
  start : Nat
  front : Bytes
  layout : StringLayout
  low : kindsStart image.file.header ≤ start
  high : start ≤ buffersStart image.file.header

namespace Rebuild

variable {image : TidyImage sha1} (rebuild : Rebuild image)

/-- The bytes that are written. -/
def region : Bytes := pushTablesAndStorage rebuild.front rebuild.layout

/-- The image with the region replaced. -/
def spliced : Bytes :=
  image.bytes.take rebuild.start ++ rebuild.region ++
    image.bytes.drop (buffersStart image.file.header)

/-- Where the bytes after the region start. -/
def landing : Nat := rebuild.start + rebuild.region.length

/-- How far the bytes after the region move. -/
def delta : Int := rebuild.region.length - (buffersStart image.file.header - rebuild.start)

/-- The relocation that a rebuild needs. -/
def reloc : Reloc where
  movedFrom := buffersStart image.file.header
  delta := rebuild.delta
  resized := none

theorem splice_eq :
    splice image.bytes rebuild.start (buffersStart image.file.header) rebuild.region =
      .ok rebuild.spliced := by
  have inside := image.buffers_le
  have high := rebuild.high
  rw [splice, checked, checked, if_pos (by omega), if_pos inside]
  rfl

theorem landing_eq : rebuild.reloc.landing = rebuild.landing := by
  have high := rebuild.high
  unfold Reloc.landing reloc delta landing
  dsimp only
  omega

theorem kept_length : (image.bytes.take rebuild.start).length = rebuild.start := by
  have inside := image.buffers_le
  have high := rebuild.high
  rw [List.length_take]
  omega

theorem spliced_length : rebuild.spliced.length =
    rebuild.landing + (image.bytes.length - buffersStart image.file.header) := by
  rw [spliced, List.length_append, List.length_append, kept_length, List.length_drop]
  rfl

/-- Before the region the image is as it was. -/
theorem spliced_before {index : Nat} (before : index < rebuild.start) :
    rebuild.spliced[index]? = image.bytes[index]? := by
  rw [spliced, List.append_assoc, List.getElem?_append_left (by rwa [kept_length]),
    List.getElem?_take_of_lt before]

/-- The tables before the region are as they were. -/
theorem spliced_words {start count : Nat} {values : List Nat}
    (before : start + count * 4 ≤ rebuild.start) (words : Words image.bytes start count values) :
    Words rebuild.spliced start count values := by
  have inside := image.buffers_le
  have high := rebuild.high
  refine words_moved words (by omega) ?_ fun index after upTo => ?_
  · rw [spliced_length]
    unfold landing
    omega
  · exact rebuild.spliced_before (by omega)

/-- The positions outside the tables of a rebuild that a write may touch. -/
def Outside (index : Nat) : Prop := index < kindsStart image.file.header ∨ rebuild.landing ≤ index

/-- Relocating leaves the rebuilt tables alone. -/
theorem relocate_unchanged {edited after : Bytes}
    (kept : Unchanged rebuild.spliced edited fun index => index < headerSize)
    (ran : Reloc.relocate image.file edited rebuild.reloc = .ok after) :
    Unchanged rebuild.spliced after rebuild.Outside := by
  have places := places_le image.file.header
  have low := rebuild.low
  have high := rebuild.high
  have end_le := image.buffers_le
  have known := ran
  simp only [Reloc.relocate, bind_eq_ok] at known
  obtain ⟨_, -, _, -, layout, known, -⟩ := known
  have slots := slotSize_eq image.file.header known
  have slotInside : ∀ id < image.file.functionHeaders.length,
      headerSize + id * Reloc.slotSize layout + Reloc.slotSize layout ≤ rebuild.start := by
    intro id inside
    rw [image.functions_eq] at inside
    have rows := Nat.mul_le_mul_right (Reloc.slotSize layout) inside
    rw [slots] at rows ⊢
    rw [Nat.succ_mul] at rows
    omega
  have past : ∀ id < image.file.functionHeaders.length,
      Reloc.LargePast rebuild.reloc.movedFrom layout headerSize edited id := by
    intro id inside
    have slot := slotInside id inside
    refine (image.tidy.large layout known id inside).of_slot (by omega) fun index after upTo => ?_
    rw [kept.same index (by omega), rebuild.spliced_before (by omega)]
  have all : headerSize + image.file.functionHeaders.length * Reloc.slotSize layout ≤
      rebuild.landing := by
    rw [image.functions_eq, slots]
    exact places.1.trans (low.trans (Nat.le_add_right _ _))
  have moved := Reloc.relocate_unchanged (image.offset (by simp [commonPlaces])) known
    (by rw [rebuild.landing_eq]; exact_mod_cast all) past ran
  refine (kept.mono fun index hit => Or.inl ?_).trans (moved.mono fun index hit => ?_)
  · exact Nat.lt_of_lt_of_le hit ((Nat.le_add_right _ _).trans places.1)
  · rcases hit with header | slots' | tail
    · exact Or.inl (Nat.lt_of_lt_of_le header ((Nat.le_add_right _ _).trans places.1))
    · rw [image.functions_eq, slots] at slots'
      exact Or.inl (Nat.lt_of_lt_of_le slots'.2 places.1)
    · rw [rebuild.landing_eq] at tail
      exact Or.inr (by exact_mod_cast tail)

/-- Finalizing leaves the rebuilt tables alone. -/
theorem sealed_outside {index : Nat} (hit : Sealed rebuild.spliced.length index) :
    rebuild.Outside index := by
  have places := places_le image.file.header
  have footer := image.tidy.footer
  rw [spliced_length] at hit
  unfold Footer.footerLen at footer
  have header : 128 ≤ kindsStart image.file.header := (Nat.le_add_right _ _).trans places.1
  rcases hit with length | tail
  · exact .inl (by omega)
  · exact .inr (by omega)

/-- The region is its tables in order, storage and a pad. -/
theorem region_eq : ∃ pad, rebuild.region = rebuild.front ++ u32Bytes rebuild.layout.small ++
    recordBytes rebuild.layout.overflow ++ rebuild.layout.storage ++ pad := ⟨_, rfl⟩

theorem region_length : rebuild.front.length + rebuild.layout.small.length * 4 +
    rebuild.layout.overflow.length * 8 + rebuild.layout.storage.length ≤ rebuild.region.length := by
  obtain ⟨pad, region⟩ := rebuild.region_eq
  rw [region]
  simp only [List.length_append, u32Bytes_length, recordBytes_length]
  exact Nat.le_add_right _ _

theorem spliced_front :
    ∃ rest, rebuild.spliced = image.bytes.take rebuild.start ++ rebuild.front ++ rest := by
  obtain ⟨pad, region⟩ := rebuild.region_eq
  refine ⟨u32Bytes rebuild.layout.small ++ recordBytes rebuild.layout.overflow ++
    rebuild.layout.storage ++ pad ++ image.bytes.drop (buffersStart image.file.header), ?_⟩
  rw [spliced, region]
  simp

/-- A header that says where the rebuilt tables are. -/
structure Describes (header : BytecodeHeader) : Prop where
  start : smallStart header = rebuild.start + rebuild.front.length
  strings : header.stringCount = rebuild.layout.small.length
  overflow : header.overflowStringCount = rebuild.layout.overflow.length
  storage : header.stringStorageSize = rebuild.layout.storage.length

section

variable {rebuild : Rebuild image} {strings : List StoredString} {out : Bytes}
  {touched : Nat → Prop} (sized : WellSized strings rebuild.layout)
  (kept : Unchanged rebuild.spliced out touched)
  (free : ∀ index, rebuild.start + rebuild.front.length ≤ index → index < rebuild.landing → ¬ touched index)

include sized kept free

/-- An image with the rebuilt region and a header that describes it has the rebuilt
tables. -/
theorem tables_eq {header : BytecodeHeader} {tables : CommonTables}
    (describes : rebuild.Describes header) (found : TablesAt out header tables) :
    tables.smallStringTable = rebuild.layout.small ∧
      tables.overflowStringTable = rebuild.layout.overflow ∧
      tables.stringStorage = rebuild.layout.storage := by
  obtain ⟨pad, region⟩ := rebuild.region_eq
  obtain ⟨starts, strings', overflow', storage'⟩ := describes
  have length := rebuild.region_length
  have overflowAt : overflowStart header =
      rebuild.start + rebuild.front.length + rebuild.layout.small.length * 4 := by
    rw [overflowStart, starts, strings']
  have storageAt : storageStart header = rebuild.start + rebuild.front.length +
      rebuild.layout.small.length * 4 + rebuild.layout.overflow.length * 8 := by
    rw [storageStart, overflowAt, overflow']
  have small := words_written (image.bytes.take rebuild.start ++ rebuild.front)
    (recordBytes rebuild.layout.overflow ++ rebuild.layout.storage ++ pad ++
      image.bytes.drop (buffersStart image.file.header)) sized.smallFits
  have records := pairs_written (image.bytes.take rebuild.start ++ rebuild.front ++
    u32Bytes rebuild.layout.small) (rebuild.layout.storage ++ pad ++
      image.bytes.drop (buffersStart image.file.header)) sized.overflowFits
  have storage := slice_middle (image.bytes.take rebuild.start ++ rebuild.front ++
    u32Bytes rebuild.layout.small ++ recordBytes rebuild.layout.overflow) rebuild.layout.storage
      (pad ++ image.bytes.drop (buffersStart image.file.header))
  have whole : rebuild.spliced = image.bytes.take rebuild.start ++ rebuild.front ++
      u32Bytes rebuild.layout.small ++ recordBytes rebuild.layout.overflow ++
        rebuild.layout.storage ++ (pad ++ image.bytes.drop (buffersStart image.file.header)) := by
    rw [spliced, region]
    simp
  rw [← whole] at storage
  rw [show image.bytes.take rebuild.start ++ rebuild.front ++ u32Bytes rebuild.layout.small ++
    recordBytes rebuild.layout.overflow ++ (rebuild.layout.storage ++ pad ++
      image.bytes.drop (buffersStart image.file.header)) = rebuild.spliced by
    rw [whole]
    simp only [List.append_assoc]] at records
  rw [show image.bytes.take rebuild.start ++ rebuild.front ++ u32Bytes rebuild.layout.small ++
    (recordBytes rebuild.layout.overflow ++ rebuild.layout.storage ++ pad ++
      image.bytes.drop (buffersStart image.file.header)) = rebuild.spliced by
    rw [whole]
    simp only [List.append_assoc]] at small
  simp only [List.length_append, kept_length, u32Bytes_length, recordBytes_length]
    at small records storage
  have foundSmall := found.small
  have foundOverflow := found.overflow
  have foundStorage := found.storage
  rw [starts, strings'] at foundSmall
  rw [overflowAt, overflow'] at foundOverflow
  rw [storageAt, storage'] at foundStorage
  unfold landing at free
  refine ⟨?_, ?_, ?_⟩
  · exact read_words kept (fun index after upTo => free index (by omega) (by omega)) small foundSmall
  · exact read_pairs kept (fun index after upTo => free index (by omega) (by omega)) records
      foundOverflow
  · rw [kept.slice_eq fun index after upTo => free index (by omega) (by omega), storage] at foundStorage
    exact (Option.some.inj foundStorage).symm

/-- A parsed image with the rebuilt region has its entries where the layout put them. -/
theorem exists_view {after : BytecodeFile} (describes : rebuild.Describes after.header)
    (below : rebuild.start + rebuild.front.length + strings.length * 12 < 2 ^ 32)
    (parsed : parseAuto sha1 out = .ok after) :
    ∃ tables locs, View out after tables locs ∧ ∀ id,
      locs[id]? = locate rebuild.layout.small rebuild.layout.overflow id := by
  have low : storageStart after.header < 2 ^ 32 := by
    have small := sized.small
    have overflow := sized.overflow
    rw [storageStart, overflowStart, describes.start, describes.strings, describes.overflow]
    omega
  obtain ⟨tables, locs, view⟩ := StringStorage.exists_view (parseAuto_region parsed) low
  obtain ⟨small, overflow, -⟩ := tables_eq sized kept free describes view.found
  refine ⟨tables, locs, view, fun id => ?_⟩
  rw [view.locate_id, small, overflow]

end

end Rebuild

end HermesDecomp.Strings
