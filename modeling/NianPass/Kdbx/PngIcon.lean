import NianPass.Kdbx.Mutations
import NianPass.Lib.Endian

/-
  The gate for custom icons, `validate_png_icon`.

  `Png.Grammar` is the grammar: the signature, then complete chunks, of which the
  first is the header, one at least is image data, and the last and no other is
  the empty end chunk. `validatePngIcon_iff` shows that the loop over the bytes
  decides it, by induction over the chunks: what a round reads is the first chunk
  of what is left (`chunksValid_chunk`), and where it reads none there is none
  (`exists_chunk`).

  The loop of the model reads with `drop` and `take`, adds without a bound and
  runs on fuel. `round` is the same round with the slices and sums of the code,
  which can fault, for a `usize` of any width that the size bound fits in.
  `Runs` is the call with no bound on its rounds, and `validatePngIcon_grammar`
  shows that it ends without a fault and with the answer of the model.
-/
namespace NianPass.Kdbx
namespace Png

/-! ## The grammar -/

/-- A chunk without its length field. -/
structure Chunk where
  kind : Bytes
  data : Bytes
  crc : Bytes
  deriving DecidableEq

namespace Chunk

def encode (chunk : Chunk) : Bytes :=
  Endian.toBytes 4 chunk.data.length ++ chunk.kind ++ chunk.data ++ chunk.crc

/-- Every part has its length, and the length field can hold the length of the data. -/
structure Complete (chunk : Chunk) : Prop where
  kind : chunk.kind.length = 4
  data : chunk.data.length < 256 ^ 4
  crc : chunk.crc.length = 4

def width (chunk : Chunk) : Nat := Endian.ofBytes (chunk.data.take 4)
def height (chunk : Chunk) : Nat := Endian.ofBytes ((chunk.data.drop 4).take 4)

structure Header (chunk : Chunk) : Prop where
  kind : chunk.kind = ihdr
  length : chunk.data.length = 13
  width : 1 ≤ chunk.width ∧ chunk.width ≤ maxDimension
  height : 1 ≤ chunk.height ∧ chunk.height ≤ maxDimension

end Chunk

/-- A header and no other, some image data, and an end chunk that is empty and comes last. -/
structure Stream (chunks : List Chunk) : Prop where
  header : ∃ first rest, chunks = first :: rest ∧ first.Header ∧ ∀ chunk ∈ rest, chunk.kind ≠ ihdr
  image : ∃ chunk ∈ chunks, chunk.kind = idat
  trailer : ∃ body last, chunks = body ++ [last] ∧ last.kind = iend ∧ last.data = [] ∧
    ∀ chunk ∈ body, chunk.kind ≠ iend

/-- The icons the gate lets through. -/
structure Grammar (bytes : Bytes) : Prop where
  size : 45 ≤ bytes.length ∧ bytes.length ≤ maxBytes
  chunks : ∃ chunks : List Chunk, bytes = signature ++ chunks.flatMap Chunk.encode ∧
    (∀ chunk ∈ chunks, chunk.Complete) ∧ Stream chunks

/-! ## Reading one chunk -/

section Chunks
variable {chunk : Chunk} {rest : Bytes}

theorem length_encode (h : chunk.Complete) (tail : Bytes) :
    (chunk.encode ++ tail).length = 12 + chunk.data.length + tail.length := by
  simp only [Chunk.encode, List.length_append, Endian.length_toBytes, h.kind, h.crc]
  omega

/-- The fields of the first chunk, where the loop looks for them. -/
theorem fields_encode (h : chunk.Complete) (tail : Bytes) :
    Endian.ofBytes ((chunk.encode ++ tail).take 4) = chunk.data.length ∧
      ((chunk.encode ++ tail).drop 4).take 4 = chunk.kind ∧
      (chunk.encode ++ tail).drop 8 = chunk.data ++ (chunk.crc ++ tail) ∧
      (chunk.encode ++ tail).drop (12 + chunk.data.length) = tail := by
  have hsplit : chunk.encode ++ tail = Endian.toBytes 4 chunk.data.length ++
      (chunk.kind ++ (chunk.data ++ (chunk.crc ++ tail))) := by
    simp only [Chunk.encode, List.append_assoc]
  have hlength := Endian.length_toBytes 4 chunk.data.length
  have hdrop4 : (chunk.encode ++ tail).drop 4 =
      chunk.kind ++ (chunk.data ++ (chunk.crc ++ tail)) := by
    rw [hsplit, List.drop_left' hlength]
  have hdrop8 : (chunk.encode ++ tail).drop 8 = chunk.data ++ (chunk.crc ++ tail) := by
    rw [show 8 = 4 + 4 from rfl, ← List.drop_drop, hdrop4, List.drop_left' h.kind]
  refine ⟨?_, ?_, hdrop8, ?_⟩
  · rw [hsplit, List.take_left' hlength, Endian.ofBytes_toBytes_of_lt h.data]
  · rw [hdrop4, List.take_left' h.kind]
  · rw [show 12 + chunk.data.length = 8 + (chunk.data.length + 4) by omega, ← List.drop_drop,
      hdrop8, ← List.drop_drop, List.drop_left' rfl, List.drop_left' h.crc]

/-- Bytes that are long enough for the length they announce start with a chunk. -/
theorem exists_chunk (hlong : 12 + Endian.ofBytes (rest.take 4) ≤ rest.length) :
    ∃ (chunk : Chunk) (tail : Bytes), chunk.Complete ∧ rest = chunk.encode ++ tail := by
  have htake : (rest.take 4).length = 4 := by simp; omega
  have hbound := Endian.ofBytes_lt (rest.take 4)
  rw [htake] at hbound
  generalize hn : Endian.ofBytes (rest.take 4) = n at hlong hbound
  let chunk : Chunk := ⟨(rest.drop 4).take 4, (rest.drop 8).take n, (rest.drop (8 + n)).take 4⟩
  have hdata : chunk.data.length = n := by simp [chunk]; omega
  refine ⟨chunk, rest.drop (12 + n), ⟨?_, by rw [hdata]; exact hbound, ?_⟩, ?_⟩
  · simp [chunk]
    omega
  · simp [chunk]
    omega
  · have hfield : Endian.toBytes 4 n = rest.take 4 := by
      have := Endian.toBytes_ofBytes (rest.take 4)
      rwa [htake, hn] at this
    have hcut : ∀ start count, rest.drop start =
        (rest.drop start).take count ++ rest.drop (start + count) := by
      intro start count
      rw [← List.drop_drop, List.take_append_drop]
    calc rest = rest.take 4 ++ rest.drop 4 := (List.take_append_drop 4 rest).symm
      _ = rest.take 4 ++ ((rest.drop 4).take 4 ++ rest.drop 8) := congrArg _ (hcut 4 4)
      _ = rest.take 4 ++ ((rest.drop 4).take 4 ++ ((rest.drop 8).take n ++ rest.drop (8 + n))) :=
          congrArg (fun last => rest.take 4 ++ ((rest.drop 4).take 4 ++ last)) (hcut 8 n)
      _ = rest.take 4 ++ ((rest.drop 4).take 4 ++ ((rest.drop 8).take n ++
            ((rest.drop (8 + n)).take 4 ++ rest.drop (12 + n)))) := by
          rw [show 12 + n = (8 + n) + 4 by omega, ← hcut (8 + n) 4]
      _ = chunk.encode ++ rest.drop (12 + n) := by
          rw [Chunk.encode, hdata, hfield]
          simp only [chunk, List.append_assoc]

end Chunks

/-! ## The loop -/

/-- What the loop asks of the chunks still to come. -/
def Follows : (firstChunk sawIdat : Bool) → List Chunk → Prop
  | _, _, [] => False
  | firstChunk, sawIdat, chunk :: rest =>
    (firstChunk = true → chunk.Header) ∧ (firstChunk = false → chunk.kind ≠ ihdr) ∧
      if chunk.kind = iend then
        chunk.data = [] ∧ (sawIdat || chunk.kind = idat) = true ∧ rest = []
      else Follows false (sawIdat || chunk.kind = idat) rest

section Loop
variable {bytes tail : Bytes} {fuel offset : Nat} {firstChunk sawIdat : Bool} {chunk : Chunk}

theorem header_iff : chunk.Header ↔ (chunk.data.length = 13 ∧ chunk.kind = ihdr) ∧
    ¬ (chunk.width = 0 ∨ chunk.height = 0 ∨ maxDimension < chunk.width ∨
      maxDimension < chunk.height) := by
  constructor
  · rintro ⟨hkind, hlength, hwidth, hheight⟩
    exact ⟨⟨hlength, hkind⟩, by omega⟩
  · rintro ⟨⟨hlength, hkind⟩, hsize⟩
    exact ⟨hkind, hlength, by omega, by omega⟩

/-- A round whose bytes start with a chunk. -/
theorem chunksValid_chunk (h : chunk.Complete) (hdrop : bytes.drop offset = chunk.encode ++ tail) :
    chunksValid bytes (fuel + 1) offset firstChunk sawIdat = true ↔
      (firstChunk = true → chunk.Header) ∧ (firstChunk = false → chunk.kind ≠ ihdr) ∧
        if chunk.kind = iend then
          chunk.data = [] ∧ (sawIdat || chunk.kind = idat) = true ∧ tail = []
        else chunksValid bytes fuel (offset + 8 + chunk.data.length + 4) false
          (sawIdat || chunk.kind = idat) = true := by
  have hlength := length_encode h tail
  obtain ⟨hword, hkind, hdata, -⟩ := fields_encode h tail
  rw [← hdrop, List.length_drop] at hlength
  rw [← hdrop] at hword hkind hdata
  rw [List.drop_drop] at hkind hdata
  have hin : ¬ bytes.length < offset + 12 := by omega
  have hend : ¬ bytes.length < offset + 8 + chunk.data.length + 4 := by omega
  have hlast : offset + 8 + chunk.data.length + 4 = bytes.length ↔ tail = [] := by
    rw [← List.length_eq_zero_iff]
    omega
  have hempty : chunk.data.length = 0 ↔ chunk.data = [] := List.length_eq_zero_iff
  -- The dimensions are read without regard to the length, which is checked before.
  have hsize : chunk.data.length = 13 →
      word bytes (offset + 8) = chunk.width ∧ word bytes (offset + 8 + 4) = chunk.height := by
    intro h13
    constructor
    · rw [word, hdata, List.take_append_of_le_length (by omega)]
      rfl
    · rw [word, ← List.drop_drop, hdata, List.drop_append_of_le_length (by omega),
        List.take_append_of_le_length (by simp; omega)]
      rfl
  have hfield : word bytes offset = chunk.data.length := hword
  rw [chunksValid]
  simp only [hin, if_false, hfield, hkind, hend]
  cases firstChunk with
  | false =>
    by_cases hihdr : chunk.kind = ihdr
    · simp [hihdr]
    · by_cases hiend : chunk.kind = iend <;> simp [hihdr, hiend, hlast, hempty]
  | true =>
    by_cases hshape : chunk.data.length = 13 ∧ chunk.kind = ihdr
    · obtain ⟨hwidth, hheight⟩ := hsize hshape.1
      have hother : ¬ (chunk.data.length ≠ 13 ∨ chunk.kind ≠ ihdr) := by tauto
      have hiend : ihdr ≠ iend := by decide
      simp [header_iff, hshape, hwidth, hheight, hiend]
    · have hother : chunk.data.length ≠ 13 ∨ chunk.kind ≠ ihdr := by tauto
      simp [header_iff, hshape, hother]

/-- A round whose bytes do not start with a chunk. -/
theorem exists_chunk_of_chunksValid
    (h : chunksValid bytes fuel offset firstChunk sawIdat = true) :
    ∃ (chunk : Chunk) (tail : Bytes), chunk.Complete ∧
      bytes.drop offset = chunk.encode ++ tail := by
  cases fuel with
  | zero => cases h
  | succ fuel =>
    rw [chunksValid] at h
    by_cases hshort : bytes.length < offset + 12
    · rw [if_pos hshort] at h
      cases h
    rw [if_neg hshort] at h
    by_cases hcut : bytes.length < offset + 8 + word bytes offset + 4
    · simp [hcut] at h
    apply exists_chunk
    rw [List.length_drop]
    have : word bytes offset = Endian.ofBytes ((bytes.drop offset).take 4) := rfl
    omega

/-- The loop accepts what is left exactly if that is a sequence of chunks that may follow. -/
theorem chunksValid_iff (hfuel : bytes.length - offset ≤ fuel) :
    chunksValid bytes fuel offset firstChunk sawIdat = true ↔
      ∃ chunks : List Chunk, bytes.drop offset = chunks.flatMap Chunk.encode ∧
        (∀ chunk ∈ chunks, chunk.Complete) ∧ Follows firstChunk sawIdat chunks := by
  induction fuel generalizing offset firstChunk sawIdat with
  | zero =>
    refine ⟨fun h => (nomatch h), ?_⟩
    rintro ⟨chunks, hdrop, hcomplete, hfollows⟩
    cases chunks with
    | nil => cases hfollows
    | cons chunk rest =>
      have hlength := length_encode (hcomplete chunk (by simp)) (rest.flatMap Chunk.encode)
      rw [List.flatMap_cons] at hdrop
      rw [← hdrop, List.length_drop] at hlength
      omega
  | succ fuel ih =>
    -- After a chunk the loop goes on with what follows it.
    have hnext : ∀ (chunk : Chunk) (tail : Bytes), chunk.Complete →
        bytes.drop offset = chunk.encode ++ tail →
        bytes.drop (offset + 8 + chunk.data.length + 4) = tail ∧
          bytes.length - (offset + 8 + chunk.data.length + 4) ≤ fuel := by
      intro chunk tail hcomplete hdrop
      have hlength := length_encode hcomplete tail
      obtain ⟨-, -, -, htail⟩ := fields_encode hcomplete tail
      rw [← hdrop, List.length_drop] at hlength
      rw [← hdrop, List.drop_drop] at htail
      rw [show offset + 8 + chunk.data.length + 4 = offset + (12 + chunk.data.length) by omega]
      exact ⟨htail, by omega⟩
    constructor
    · intro h
      obtain ⟨chunk, tail, hcomplete, hdrop⟩ := exists_chunk_of_chunksValid h
      obtain ⟨htail, hleft⟩ := hnext chunk tail hcomplete hdrop
      obtain ⟨hheader, hother, hrest⟩ := (chunksValid_chunk hcomplete hdrop).mp h
      by_cases hiend : chunk.kind = iend
      · rw [if_pos hiend] at hrest
        refine ⟨[chunk], by rw [hdrop, hrest.2.2]; simp, by simpa using hcomplete, hheader, hother, ?_⟩
        rw [if_pos hiend]
        exact ⟨hrest.1, hrest.2.1, rfl⟩
      · rw [if_neg hiend] at hrest
        obtain ⟨rest, hbytes, hcompletes, hfollows⟩ := (ih hleft).mp hrest
        rw [htail] at hbytes
        refine ⟨chunk :: rest, by rw [hdrop, hbytes, List.flatMap_cons], ?_, hheader, hother, ?_⟩
        · intro other hmem
          rcases List.mem_cons.mp hmem with rfl | hmem
          · exact hcomplete
          · exact hcompletes other hmem
        · rw [if_neg hiend]
          exact hfollows
    · rintro ⟨chunks, hdrop, hcompletes, hfollows⟩
      cases chunks with
      | nil => cases hfollows
      | cons chunk rest =>
        rw [List.flatMap_cons] at hdrop
        have hcomplete := hcompletes chunk (by simp)
        obtain ⟨htail, hleft⟩ := hnext chunk _ hcomplete hdrop
        obtain ⟨hheader, hother, hrest⟩ := hfollows
        refine (chunksValid_chunk hcomplete hdrop).mpr ⟨hheader, hother, ?_⟩
        by_cases hiend : chunk.kind = iend
        · rw [if_pos hiend] at hrest ⊢
          exact ⟨hrest.1, hrest.2.1, by rw [hrest.2.2]; rfl⟩
        · rw [if_neg hiend] at hrest ⊢
          exact (ih hleft).mpr ⟨rest, htail, fun other h => hcompletes other (by simp [h]), hrest⟩

end Loop

/-! ## The gate -/

/-- The last chunk, and no other, is an end chunk, and it is empty. -/
def Ended (chunks : List Chunk) : Prop :=
  ∃ body last, chunks = body ++ [last] ∧ last.kind = iend ∧ last.data = [] ∧
    ∀ chunk ∈ body, chunk.kind ≠ iend

theorem ended_cons {chunk : Chunk} {rest : List Chunk} : Ended (chunk :: rest) ↔
    if chunk.kind = iend then chunk.data = [] ∧ rest = [] else Ended rest := by
  constructor
  · rintro ⟨body, last, hchunks, hkind, hdata, hbody⟩
    cases body with
    | nil =>
      obtain ⟨rfl, rfl⟩ := List.cons.inj hchunks
      rw [if_pos hkind]
      exact ⟨hdata, rfl⟩
    | cons first body =>
      obtain ⟨rfl, rfl⟩ := List.cons.inj hchunks
      rw [if_neg (hbody chunk List.mem_cons_self)]
      exact ⟨body, last, rfl, hkind, hdata, fun other h => hbody other (List.mem_cons_of_mem _ h)⟩
  · intro h
    by_cases hkind : chunk.kind = iend
    · rw [if_pos hkind] at h
      exact ⟨[], chunk, by rw [h.2]; rfl, hkind, h.1, by simp⟩
    · rw [if_neg hkind] at h
      obtain ⟨body, last, rfl, hlast, hdata, hbody⟩ := h
      refine ⟨chunk :: body, last, rfl, hlast, hdata, ?_⟩
      intro other hmem
      rcases List.mem_cons.mp hmem with rfl | hmem
      · exact hkind
      · exact hbody other hmem

theorem follows_iff {sawIdat : Bool} {chunks : List Chunk} : Follows false sawIdat chunks ↔
    (∀ chunk ∈ chunks, chunk.kind ≠ ihdr) ∧
      (sawIdat = true ∨ ∃ chunk ∈ chunks, chunk.kind = idat) ∧ Ended chunks := by
  induction chunks generalizing sawIdat with
  | nil =>
    refine ⟨False.elim, ?_⟩
    rintro ⟨-, -, body, last, hnil, -⟩
    simp at hnil
  | cons chunk rest ih =>
    rw [Follows, ended_cons]
    by_cases hkind : chunk.kind = iend
    · rw [if_pos hkind, if_pos hkind]
      constructor
      · rintro ⟨-, hother, hdata, hsaw, rfl⟩
        exact ⟨by simpa using hother, by simpa using hsaw, hdata, rfl⟩
      · rintro ⟨hother, hsaw, hdata, rfl⟩
        exact ⟨by simp, fun _ => by simpa using hother, hdata, by simpa using hsaw, rfl⟩
    · rw [if_neg hkind, if_neg hkind, ih]
      simp only [List.forall_mem_cons, List.exists_mem_cons_iff, Bool.or_eq_true,
        decide_eq_true_iff, Bool.false_eq_true, false_imp_iff, true_and, forall_const]
      tauto

theorem follows_start_iff {chunks : List Chunk} : Follows true false chunks ↔ Stream chunks := by
  have hheader : ∀ chunk : Chunk, chunk.Header → chunk.kind ≠ iend ∧ chunk.kind ≠ idat := by
    intro chunk h
    rw [h.kind]
    decide
  cases chunks with
  | nil =>
    refine ⟨False.elim, fun h => ?_⟩
    obtain ⟨first, rest, hnil, -⟩ := h.header
    cases hnil
  | cons chunk rest =>
    constructor
    · rintro ⟨hfirst, -, hrest⟩
      have hchunk := hfirst rfl
      obtain ⟨hiend, hidat⟩ := hheader chunk hchunk
      rw [if_neg hiend] at hrest
      obtain ⟨hother, himage, hended⟩ := follows_iff.mp hrest
      refine ⟨⟨chunk, rest, rfl, hchunk, hother⟩, ?_, ended_cons.mpr (by rwa [if_neg hiend])⟩
      obtain ⟨other, hmem, hkind⟩ := himage.resolve_left (by simp [hidat])
      exact ⟨other, List.mem_cons_of_mem chunk hmem, hkind⟩
    · rintro ⟨⟨first, rest', heq, hchunk, hother⟩, ⟨image, hmem, hkind⟩, hended⟩
      obtain ⟨rfl, rfl⟩ := List.cons.inj heq
      obtain ⟨hiend, hidat⟩ := hheader chunk hchunk
      refine ⟨fun _ => hchunk, by simp, ?_⟩
      rw [if_neg hiend]
      have hended : Ended rest := by simpa [hiend] using ended_cons.mp hended
      refine follows_iff.mpr ⟨hother, Or.inr ⟨image, ?_, hkind⟩, hended⟩
      refine (List.mem_cons.mp hmem).resolve_left ?_
      rintro rfl
      exact hidat hkind

end Png

open Png in
/-- `validate_png_icon` lets exactly the icons of the grammar through. -/
theorem validatePngIcon_iff {bytes : Bytes} : validatePngIcon bytes = .ok () ↔ Grammar bytes := by
  have hloop := @chunksValid_iff bytes bytes.length 8 true false (by omega)
  unfold validatePngIcon
  constructor
  · intro h
    split at h
    · cases h
    · case isFalse hgate =>
      split at h
      · case isTrue hvalid =>
        obtain ⟨chunks, hdrop, hcomplete, hfollows⟩ := hloop.mp hvalid
        have hsignature : bytes.take 8 = signature := by tauto
        refine ⟨by omega, chunks, ?_, hcomplete, follows_start_iff.mp hfollows⟩
        rw [← hsignature, ← hdrop, List.take_append_drop]
      · cases h
  · rintro ⟨⟨hmin, hmax⟩, chunks, hbytes, hcomplete, hstream⟩
    have hsignature : bytes.take 8 = signature := by
      rw [hbytes]
      exact List.take_left' rfl
    have hdrop : bytes.drop 8 = chunks.flatMap Chunk.encode := by
      rw [hbytes]
      exact List.drop_left' rfl
    rw [if_neg, if_pos]
    · exact hloop.mpr ⟨chunks, hdrop, hcomplete, follows_start_iff.mpr hstream⟩
    · rintro (hshort | hlong | hother)
      · omega
      · omega
      · exact hother hsignature

namespace Png

/-! ## The loop of the code -/

/-- What stops a Rust program: an index outside a slice, a sum that does not fit. -/
inductive Fault where
  | outOfRange
  | overflow
  deriving DecidableEq, Repr

/-- `bytes[start..stop]`. -/
def slice (bytes : Bytes) (start stop : Nat) : Except Fault Bytes :=
  if start ≤ stop ∧ stop ≤ bytes.length then .ok ((bytes.drop start).take (stop - start))
  else .error .outOfRange

/-- `bytes.get(start..stop)`. -/
def getSlice (bytes : Bytes) (start stop : Nat) : Option Bytes := (slice bytes start stop).toOption

/-- `a + b` in a `usize` of `bits` bits. -/
def add (bits a b : Nat) : Except Fault Nat :=
  if a + b < 2 ^ bits then .ok (a + b) else .error .overflow

def checkedAdd (bits a b : Nat) : Option Nat := (add bits a b).toOption

/-- The variables of the loop. -/
structure Cursor where
  offset : Nat
  firstChunk : Bool
  sawIdat : Bool
  deriving DecidableEq

section Machine
variable (bits : Nat) (bytes : Bytes)

/-- The check of the first chunk; `false` is `return Err(..)`. -/
def headerValid (dataStart length : Nat) (chunkType : Bytes) : Except Fault Bool := do
  if length ≠ 13 ∨ chunkType ≠ ihdr then pure false
  else
    let width ← slice bytes dataStart (← add bits dataStart 4)
    let height ← slice bytes (← add bits dataStart 4) (← add bits dataStart 8)
    let width := Endian.ofBytes width
    let height := Endian.ofBytes height
    pure (decide ¬ (width = 0 ∨ height = 0 ∨ maxDimension < width ∨ maxDimension < height))

/-- One round of the `while` loop: the answer of the function, or the variables of the next round. -/
def round (cursor : Cursor) : Except Fault (Bool ⊕ Cursor) := do
  if ¬ (checkedAdd bits cursor.offset 12).any (· ≤ bytes.length) then pure (.inl false)
  else
    let field ← slice bytes cursor.offset (← add bits cursor.offset 4)
    let length := Endian.ofBytes field
    -- `usize::try_from`
    if 2 ^ bits ≤ length then pure (.inl false)
    else
      match getSlice bytes (← add bits cursor.offset 4) (← add bits cursor.offset 8) with
      | none => pure (.inl false)
      | some chunkType =>
        let dataStart ← add bits cursor.offset 8
        match (checkedAdd bits dataStart length).bind (checkedAdd bits · 4) with
        | none => pure (.inl false)
        | some chunkEnd =>
          if bytes.length < chunkEnd then pure (.inl false)
          else
            let valid ← if cursor.firstChunk then headerValid bits bytes dataStart length chunkType
              else pure (decide (chunkType ≠ ihdr))
            if ¬ valid then pure (.inl false)
            else
              let sawIdat := cursor.sawIdat || chunkType = idat
              if chunkType = iend then
                pure (.inl (length = 0 ∧ sawIdat ∧ chunkEnd = bytes.length))
              else pure (.inr ⟨chunkEnd, false, sawIdat⟩)

/-- The loop from `cursor` ends, without a fault, and the function answers `accepted`. -/
inductive Ends : Cursor → Bool → Prop where
  | stop {cursor : Cursor} {accepted : Bool} (h : round bits bytes cursor = .ok (.inl accepted)) :
      Ends cursor accepted
  | next {cursor cursor' : Cursor} {accepted : Bool}
      (h : round bits bytes cursor = .ok (.inr cursor')) (hrest : Ends cursor' accepted) :
      Ends cursor accepted

/-- The call on `bytes` ends, without a fault, with the answer `accepted`. -/
def Runs (accepted : Bool) : Prop :=
  if bytes.length < 45 ∨ maxBytes < bytes.length ∨ getSlice bytes 0 8 ≠ some signature then
    accepted = false
  else Ends bits bytes ⟨8, true, false⟩ accepted

end Machine

section Machine
variable {bits : Nat} {bytes : Bytes}

theorem add_ok {a b : Nat} (h : a + b < 2 ^ bits) : add bits a b = .ok (a + b) := if_pos h

theorem checkedAdd_eq_some {a b c : Nat} :
    checkedAdd bits a b = some c ↔ a + b < 2 ^ bits ∧ a + b = c := by
  unfold checkedAdd add
  split <;> simp [*, Except.toOption]

theorem slice_ok {start stop : Nat} (h : start ≤ stop) (h' : stop ≤ bytes.length) :
    slice bytes start stop = .ok ((bytes.drop start).take (stop - start)) := if_pos ⟨h, h'⟩

theorem headerValid_ok {dataStart : Nat} (length : Nat) (chunkType : Bytes)
    (hin : length = 13 → dataStart + 8 ≤ bytes.length) (hbits : bytes.length < 2 ^ bits) :
    headerValid bits bytes dataStart length chunkType = .ok (decide
      (¬ (length ≠ 13 ∨ chunkType ≠ ihdr) ∧
        ¬ (word bytes dataStart = 0 ∨ word bytes (dataStart + 4) = 0 ∨
          maxDimension < word bytes dataStart ∨ maxDimension < word bytes (dataStart + 4)))) := by
  unfold headerValid
  by_cases hshape : length ≠ 13 ∨ chunkType ≠ ihdr
  · rw [if_pos hshape]
    simp [hshape, pure, Except.pure]
  · have hroom := hin (by tauto)
    rw [if_neg hshape, add_ok (by omega), add_ok (by omega)]
    simp only [bind, Except.bind]
    rw [slice_ok (by omega) (by omega)]
    simp only []
    rw [slice_ok (by omega) (by omega)]
    have hwidth : dataStart + 4 - dataStart = 4 := by omega
    have hheight : dataStart + 8 - (dataStart + 4) = 4 := by omega
    simp only [hwidth, hheight, hshape, not_false_eq_true, true_and]
    rfl

variable {offset : Nat} {firstChunk sawIdat : Bool}

/-- Fewer than twelve bytes are left. -/
theorem round_short (h : bytes.length < offset + 12) :
    round bits bytes ⟨offset, firstChunk, sawIdat⟩ = .ok (.inl false) := by
  have hno : ¬ (checkedAdd bits offset 12).any (· ≤ bytes.length) := by
    cases hend : checkedAdd bits offset 12 with
    | none => simp
    | some stop =>
      obtain rfl := (checkedAdd_eq_some.mp hend).2
      simpa using h
  unfold round
  rw [if_pos hno]
  rfl

/-- What a round has read once the chunk is known to start inside the input. -/
theorem round_long (h : ¬ bytes.length < offset + 12) (hbits : bytes.length + 12 < 2 ^ bits) :
    round bits bytes ⟨offset, firstChunk, sawIdat⟩ = .ok (
      if bytes.length < offset + 8 + word bytes offset + 4 then .inl false
      else
        let chunkType := (bytes.drop (offset + 4)).take 4
        let valid := if firstChunk then decide
            (¬ (word bytes offset ≠ 13 ∨ chunkType ≠ ihdr) ∧
              ¬ (word bytes (offset + 8) = 0 ∨ word bytes (offset + 8 + 4) = 0 ∨
                maxDimension < word bytes (offset + 8) ∨
                maxDimension < word bytes (offset + 8 + 4)))
          else decide (chunkType ≠ ihdr)
        if ¬ valid then .inl false
        else
          let sawIdat := sawIdat || chunkType = idat
          if chunkType = iend then
            .inl (word bytes offset = 0 ∧ sawIdat ∧ offset + 8 + word bytes offset + 4 = bytes.length)
          else .inr ⟨offset + 8 + word bytes offset + 4, false, sawIdat⟩) := by
  have hyes : ¬ ¬ (checkedAdd bits offset 12).any (· ≤ bytes.length) := by
    rw [checkedAdd_eq_some.mpr ⟨by omega, rfl⟩]
    simpa using h
  have hfield : slice bytes offset (offset + 4) = .ok ((bytes.drop offset).take 4) := by
    rw [slice_ok (by omega) (by omega), Nat.add_sub_cancel_left]
  have hkind : getSlice bytes (offset + 4) (offset + 8) =
      some ((bytes.drop (offset + 4)).take 4) := by
    rw [getSlice, slice_ok (by omega) (by omega), show offset + 8 - (offset + 4) = 4 by omega]
    rfl
  have hword : Endian.ofBytes ((bytes.drop offset).take 4) = word bytes offset := rfl
  have hadd4 : add bits offset 4 = .ok (offset + 4) := add_ok (by omega)
  have hadd8 : add bits offset 8 = .ok (offset + 8) := add_ok (by omega)
  unfold round
  rw [if_neg hyes]
  simp only [bind, Except.bind, hadd4, hadd8, hfield, hword, hkind]
  by_cases hcut : bytes.length < offset + 8 + word bytes offset + 4
  · -- However the length overflows, the chunk does not fit.
    rw [if_pos hcut]
    split
    · rfl
    · split
      · rfl
      · case h_2 chunkEnd hend =>
        have hsum : chunkEnd = offset + 8 + word bytes offset + 4 := by
          obtain ⟨dataEnd, hdata, hlast⟩ := Option.bind_eq_some_iff.mp hend
          rw [← (checkedAdd_eq_some.mp hlast).2, ← (checkedAdd_eq_some.mp hdata).2]
        rw [if_pos (hsum ▸ hcut)]
        rfl
  · rw [if_neg hcut, if_neg (by omega)]
    have hend : (checkedAdd bits (offset + 8) (word bytes offset)).bind (checkedAdd bits · 4) =
        some (offset + 8 + word bytes offset + 4) := by
      apply Option.bind_eq_some_iff.mpr
      exact ⟨_, checkedAdd_eq_some.mpr ⟨by omega, rfl⟩, checkedAdd_eq_some.mpr ⟨by omega, rfl⟩⟩
    rw [hend]
    simp only []
    rw [if_neg hcut]
    cases firstChunk with
    | false =>
      simp only [Bool.false_eq_true, if_false, pure, Except.pure]
      split
      · rfl
      · split <;> rfl
    | true =>
      have hroom : word bytes offset = 13 → offset + 8 + 8 ≤ bytes.length := by omega
      have hheader := @headerValid_ok bits bytes (offset + 8) (word bytes offset)
        ((bytes.drop (offset + 4)).take 4) hroom (by omega)
      simp only [if_true, hheader, pure, Except.pure]
      split
      · rfl
      · split <;> rfl

/-- The loop of the code ends with what the loop of the model answers. -/
theorem ends_chunksValid {fuel : Nat} (hbits : bytes.length + 12 < 2 ^ bits)
    (hfuel : bytes.length - offset ≤ fuel) :
    Ends bits bytes ⟨offset, firstChunk, sawIdat⟩
      (chunksValid bytes fuel offset firstChunk sawIdat) := by
  induction fuel generalizing offset firstChunk sawIdat with
  | zero => exact .stop (round_short (by omega))
  | succ fuel ih =>
    by_cases hshort : bytes.length < offset + 12
    · rw [chunksValid, if_pos hshort]
      exact .stop (round_short hshort)
    have hround := @round_long bits bytes offset firstChunk sawIdat hshort hbits
    rw [chunksValid, if_neg hshort]
    by_cases hcut : bytes.length < offset + 8 + word bytes offset + 4
    · simp only [hcut, if_true] at hround ⊢
      exact .stop hround
    simp only [hcut, if_false] at hround ⊢
    have hleft : bytes.length - (offset + 8 + word bytes offset + 4) ≤ fuel := by omega
    generalize (bytes.drop (offset + 4)).take 4 = kind at hround ⊢
    -- The end chunk ends the loop, any other hands its end over to the next round.
    have hrest : ∀ {valid : Bool},
        round bits bytes ⟨offset, firstChunk, sawIdat⟩ = .ok (if ¬ valid then .inl false
          else if kind = iend then .inl (word bytes offset = 0 ∧ (sawIdat || kind = idat) ∧
              offset + 8 + word bytes offset + 4 = bytes.length)
            else .inr ⟨offset + 8 + word bytes offset + 4, false, sawIdat || kind = idat⟩) →
        Ends bits bytes ⟨offset, firstChunk, sawIdat⟩ (if ¬ valid then false
          else if kind = iend then decide (word bytes offset = 0 ∧ (sawIdat || kind = idat) ∧
              offset + 8 + word bytes offset + 4 = bytes.length)
            else chunksValid bytes fuel (offset + 8 + word bytes offset + 4) false
              (sawIdat || kind = idat)) := by
      intro valid hround
      split at hround
      · case isTrue hvalid =>
        rw [if_pos hvalid]
        exact .stop hround
      · case isFalse hvalid =>
        rw [if_neg hvalid]
        split at hround
        · case isTrue hiend =>
          rw [if_pos hiend]
          exact .stop hround
        · case isFalse hiend =>
          rw [if_neg hiend]
          exact .next hround (ih hleft)
    convert hrest hround using 1
    cases firstChunk <;> grind

end Machine

/-- For a `usize` that holds the size bound and the largest step of the loop, `validate_png_icon`
ends on every input, with no index out of range and no sum that overflows, and accepts exactly the
icons of the grammar. -/
theorem validatePngIcon_grammar {bits : Nat} (hbits : maxBytes + 12 < 2 ^ bits) (bytes : Bytes) :
    ∃ accepted, Runs bits bytes accepted ∧ (accepted = true ↔ Grammar bytes) ∧
      (validatePngIcon bytes = .ok () ↔ accepted = true) := by
  have hgate : ¬ bytes.length < 45 → (getSlice bytes 0 8 ≠ some signature ↔
      bytes.take 8 ≠ signature) := by
    intro hlong
    rw [getSlice, slice_ok (by omega) (by omega)]
    simp [Except.toOption]
  by_cases hsize : bytes.length < 45 ∨ maxBytes < bytes.length ∨ bytes.take 8 ≠ signature
  · have hmodel : validatePngIcon bytes = .error .invalidIcon := if_pos hsize
    refine ⟨false, ?_, ?_, by simp [hmodel]⟩
    · unfold Runs
      rw [if_pos (by tauto)]
    · rw [← validatePngIcon_iff, hmodel]
      simp
  · have hmodel : validatePngIcon bytes = .ok () ↔
        chunksValid bytes bytes.length 8 true false = true := by
      unfold validatePngIcon
      rw [if_neg hsize]
      split <;> simp [*]
    refine ⟨chunksValid bytes bytes.length 8 true false, ?_, ?_, hmodel⟩
    · unfold Runs
      rw [if_neg (by tauto)]
      exact ends_chunksValid (by omega) (by omega)
    · rw [← validatePngIcon_iff, hmodel]

/-- One pixel by two, with an empty image. -/
def smallIcon : Bytes := signature ++ List.flatMap Chunk.encode
  [⟨ihdr, [0, 0, 0, 1, 0, 0, 0, 2, 8, 6, 0, 0, 0], [1, 2, 3, 4]⟩, ⟨idat, [], [5, 6, 7, 8]⟩,
    ⟨iend, [], [9, 10, 11, 12]⟩]

set_option maxRecDepth 100000 in
theorem validatePngIcon_grammar_small : Runs 64 smallIcon true ∧ Grammar smallIcon := by
  obtain ⟨accepted, hruns, hgrammar, hmodel⟩ :=
    @validatePngIcon_grammar 64 (by decide) smallIcon
  obtain rfl : accepted = true := hmodel.mp (by decide +kernel)
  exact ⟨hruns, hgrammar.mp rfl⟩

end Png

end NianPass.Kdbx
