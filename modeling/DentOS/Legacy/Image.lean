/-
  Legacy U-Boot images (vendor-config-onl, onl/install/Legacy.py): `Parser._parseStream` and
  `ExtractRunner.run`.

  A multi image has, behind the header of 64 bytes, the size of each image in it, a zero, and the
  images, each of which begins at a multiple of four.  The parser computes where: a running sum, rounded
  up behind every image.  `packMulti` writes such a file, with no sum in it at all.  The round trip
  (`extract_packed`) is carried by `table_at`: from any position that is a multiple of four the rows of
  the table say where the images are, whatever stands in front of them.

  Of the header the parser keeps every field, and the extraction uses two: the type and the size.  The
  log is left out.
-/
import Mathlib.Algebra.GroupWithZero.Nat
import DentOS.Fit.Tokens

namespace DentOS.Legacy

open Outcome Fit

/-- `IH_MAGIC`. -/
def magic : Nat := 0x27051956

/-- `IH_TYPE_MULTI`. -/
def typeMulti : UInt8 := 4

/-! ## The parser: a header, and a table of sizes where it is a multi image -/

/-- The members that `_parseStream` sets; `images` has the size and the offset of each image. -/
structure Parser where
  ihHcrc : Nat
  ihTime : Nat
  ihSize : Nat
  ihLoad : Nat
  ihEp : Nat
  ihDcrc : Nat
  ihOs : UInt8
  ihArch : UInt8
  ihType : UInt8
  ihComp : UInt8
  ihName : Bytes
  images : List (Nat × Nat)

/-- `text.rstrip('\0')`. -/
def rstripNul (t : Bytes) : Bytes := (t.reverse.dropWhile (· = 0)).reverse

/-- The sizes up to the zero, from the rest of the file at `pos` on, and the position behind them. -/
def sizes : Bytes → Nat → Py (List Nat × Nat)
  | b0 :: b1 :: b2 :: b3 :: rest, pos =>
      let sz := BigEndian.ofBytes [b0, b1, b2, b3]
      if sz = 0 then pure ([], pos + 4)
      else do
        let (szs, pos) ← sizes rest (pos + 4)
        pure (sz :: szs, pos)
  | _, _ => .raised .structError

/-- The rows of the table: size and offset, the offset a running sum. -/
def table : Nat → List Nat → List (Nat × Nat)
  | _, [] => []
  | pos, sz :: szs => (sz, pos) :: table (align (pos + sz)) szs

/-- `_parseStream` on a file opened at its start. -/
def parseStream (file : Bytes) : Py Parser := do
  let (buf, pos) := read file 0 64
  if buf.length ≠ 64 then .raised .structError
  else
    let hdr := words (buf.take 28)
    if hdr.getD 0 0 ≠ magic then .raised (.valueError "missing or invalid magic")
    else
      let p : Parser := {
        ihHcrc := hdr.getD 1 0
        ihTime := hdr.getD 2 0
        ihSize := hdr.getD 3 0
        ihLoad := hdr.getD 4 0
        ihEp := hdr.getD 5 0
        ihDcrc := hdr.getD 6 0
        ihOs := buf.getD 28 0
        ihArch := buf.getD 29 0
        ihType := buf.getD 30 0
        ihComp := buf.getD 31 0
        ihName := rstripNul (buf.drop 32)
        images := [] }
      if p.ihType = typeMulti then
        let (szs, pos) ← sizes (file.drop pos) pos
        pure { p with images := table pos szs }
      else pure p

/-! ## Extraction of an image by its number -/

/-- `list[index]`: a negative index counts from the end. -/
def pyIndex {α : Type} (l : List α) (index : Int) : Py α :=
  let i := if index < 0 then index + l.length else index
  match if i < 0 then none else l[i.toNat]? with
  | some a => pure a
  | none => .raised .indexError

/-- `ExtractRunner.run`: the exit code, and what has been written. -/
def extractRun (file : Bytes) (index : Option Int) : Py (Nat × Bytes) := do
  let p ← parseStream file
  if p.ihType ≠ typeMulti then
    match index with
    -- not a multi-file image, image index not allowed
    | some _ => pure (1, [])
    | none => pure (0, (read file 64 p.ihSize).1)
  else
    match index with
    -- multi-file image, image index required
    | none => pure (1, [])
    | some index => do
        let (sz, off) ← pyIndex p.images index
        pure (0, (read file off sz).1)

/-! ## Packing: what the parser should read -/

/-- The header, apart from its magic, its type and the size of the payload. -/
structure Header where
  hcrc : UInt32
  time : UInt32
  load : UInt32
  ep : UInt32
  dcrc : UInt32
  os : UInt8
  arch : UInt8
  comp : UInt8
  name : Bytes
  nameLength : name.length = 32

/-- The 64 bytes of the header. -/
def Header.encode (h : Header) (type : UInt8) (size : UInt32) : Bytes :=
  [magic, h.hcrc.toNat, h.time.toNat, size.toNat, h.load.toNat, h.ep.toNat, h.dcrc.toNat].flatMap word
    ++ ([h.os, h.arch, type, h.comp] ++ h.name)

/-- An image of a multi image: it is not empty, and its size is a word. -/
structure SubImage where
  /-- The bytes of the image. -/
  data : Bytes
  /-- A size of zero would end the table. -/
  nonempty : 0 < data.length
  /-- The size is written as a word. -/
  fits : data.length < 2 ^ 32

/-- How long it is. -/
def SubImage.size (i : SubImage) : Nat := i.data.length

/-- The image, up to a multiple of four. -/
def SubImage.padded (i : SubImage) : Bytes :=
  i.data ++ List.replicate (align i.size - i.size) 0

/-- A multi image. -/
def packMulti (h : Header) (size : UInt32) (images : List SubImage) : Bytes :=
  h.encode typeMulti size ++ ((images.map SubImage.size).flatMap word ++ (word 0 ++
    images.flatMap SubImage.padded))

/-- Where the i-th image begins: behind the header, the sizes, the zero and the images in front of it. -/
def offset (images : List SubImage) (i : Nat) : Nat :=
  64 + 4 * (images.length + 1) + ((images.take i).map fun image => align image.size).sum

/-! ## The header comes back as it was packed -/

/-- Its length. -/
theorem length_encode (h : Header) (type : UInt8) (size : UInt32) :
    (h.encode type size).length = 64 := by
  rw [Header.encode, List.length_append, length_flatMap_word, List.length_append, h.nameLength]
  rfl

/-- The first seven words of the header. -/
theorem take_header (h : Header) (type : UInt8) (size : UInt32) :
    words ((h.encode type size).take 28) =
      [magic, h.hcrc.toNat, h.time.toNat, size.toNat, h.load.toNat, h.ep.toNat, h.dcrc.toNat] := by
  have hlength : 28 = ([magic, h.hcrc.toNat, h.time.toNat, size.toNat, h.load.toNat, h.ep.toNat,
      h.dcrc.toNat].flatMap word).length := by rw [length_flatMap_word]; rfl
  rw [Header.encode, hlength, List.take_left]
  refine words_flatMap fun n hn => ?_
  simp only [List.mem_cons, List.not_mem_nil, or_false] at hn
  rcases hn with rfl | rfl | rfl | rfl | rfl | rfl | rfl
  · decide
  all_goals exact UInt32.toNat_lt _

/-- The bytes of the header behind its words. -/
theorem drop_header (h : Header) (type : UInt8) (size : UInt32) :
    (h.encode type size).drop 28 = [h.os, h.arch, type, h.comp] ++ h.name := by
  have hlength : 28 = ([magic, h.hcrc.toNat, h.time.toNat, size.toNat, h.load.toNat, h.ep.toNat,
      h.dcrc.toNat].flatMap word).length := by rw [length_flatMap_word]; rfl
  rw [Header.encode, hlength, List.drop_left]

/-- The members that are the header's. -/
def Header.parsed (h : Header) (type : UInt8) (size : UInt32) (images : List (Nat × Nat)) : Parser where
  ihHcrc := h.hcrc.toNat
  ihTime := h.time.toNat
  ihSize := size.toNat
  ihLoad := h.load.toNat
  ihEp := h.ep.toNat
  ihDcrc := h.dcrc.toNat
  ihOs := h.os
  ihArch := h.arch
  ihType := type
  ihComp := h.comp
  ihName := rstripNul h.name
  images := images

/-- **The header is read back**, with the table of sizes of a multi image. -/
theorem parseStream_encode (h : Header) (type : UInt8) (size : UInt32) (rest : Bytes) :
    parseStream (h.encode type size ++ rest) =
      if type = typeMulti then sizes rest 64 >>= fun r => pure (h.parsed type size (table r.2 r.1))
      else pure (h.parsed type size []) := by
  have hread : read (h.encode type size ++ rest) 0 64 = (h.encode type size, 64) :=
    read_at ⟨rest, rfl⟩ (length_encode h type size).symm
  have hdrop : (h.encode type size ++ rest).drop 64 = rest := by
    rw [← length_encode h type size, List.drop_left]
  have hbyte : ∀ i, (h.encode type size).getD (28 + i) 0 =
      ([h.os, h.arch, type, h.comp] ++ h.name).getD i 0 := by
    intro i
    rw [← drop_header h type size, List.getD_eq_getElem?_getD, List.getD_eq_getElem?_getD,
      List.getElem?_drop]
  have hname : (h.encode type size).drop 32 = h.name := by
    have h28 := congrArg (List.drop 4) (drop_header h type size)
    rw [List.drop_drop] at h28
    exact h28
  have htype : (h.encode type size).getD 30 0 = type := hbyte 2
  rw [parseStream, hread]
  show (if (h.encode type size).length ≠ 64 then _ else _) = _
  rw [if_neg (fun hne => hne (length_encode h type size)), take_header]
  show (if magic ≠ magic then _ else _) = _
  rw [if_neg (fun hne => hne rfl), htype, hdrop, hbyte 0, hbyte 1, hbyte 3, hname]
  rfl

/-! ## The table of sizes gives every image its place -/

/-- One word of the table. -/
theorem sizes_word {n : Nat} (hn : n < 2 ^ 32) (rest : Bytes) (pos : Nat) :
    sizes (word n ++ rest) pos =
      if n = 0 then pure ([], pos + 4)
      else sizes rest (pos + 4) >>= fun r => pure (n :: r.1, r.2) := by
  have hround : BigEndian.ofBytes (word n) = n := BigEndian.ofBytes_toBytes_of_lt (k := 4) hn
  show (if BigEndian.ofBytes (word n) = 0 then pure ([], pos + 4)
    else sizes rest (pos + 4) >>= fun r => pure (BigEndian.ofBytes (word n) :: r.1, r.2)) = _
  rw [hround]

/-- The sizes are read up to the zero. -/
theorem sizes_words (rest : Bytes) : ∀ (szs : List Nat) (pos : Nat),
    (∀ sz ∈ szs, 0 < sz ∧ sz < 2 ^ 32) →
    sizes (szs.flatMap word ++ (word 0 ++ rest)) pos = .returned (szs, pos + 4 * (szs.length + 1)) := by
  intro szs
  induction szs with
  | nil =>
      intro pos _
      rw [List.flatMap_nil, List.nil_append, sizes_word (by decide), if_pos rfl]
      rfl
  | cons sz szs ih =>
      intro pos h
      obtain ⟨hpos, hlt⟩ := h sz List.mem_cons_self
      rw [List.flatMap_cons, List.append_assoc, sizes_word hlt, if_neg (by omega),
        ih (pos + 4) fun s hs => h s (List.mem_cons_of_mem sz hs), returned_bind, List.length_cons]
      show Outcome.returned (sz :: szs, pos + 4 + 4 * (szs.length + 1)) = _
      rw [show pos + 4 + 4 * (szs.length + 1) = pos + 4 * (szs.length + 1 + 1) by omega]

/-- What is padded is aligned. -/
theorem length_padded (image : SubImage) : image.padded.length = align image.size := by
  have hle : image.size ≤ align image.size := by unfold align; omega
  rw [SubImage.padded, List.length_append, List.length_replicate]
  show image.size + (align image.size - image.size) = _
  omega

/-- **Where the images are**: the running sum of the table is the sum of the padded images in front. -/
theorem table_at {file : Bytes} : ∀ (images : List SubImage) (pos : Nat), pos % 4 = 0 →
    At file pos (images.flatMap SubImage.padded) → ∀ (i : Nat) (image : SubImage),
    images[i]? = some image →
    (table pos (images.map SubImage.size))[i]? =
        some (image.size, pos + ((images.take i).map fun image => align image.size).sum) ∧
      At file (pos + ((images.take i).map fun image => align image.size).sum) image.data := by
  intro images
  induction images with
  | nil =>
      intro pos _ _ i image hi
      cases hi
  | cons first images ih =>
      intro pos hmod hat i image hi
      rw [List.flatMap_cons, at_append, length_padded] at hat
      obtain ⟨hfirst, hrest⟩ := hat
      -- Behind the first image the sum is a multiple of four again.
      have halign : align (pos + first.size) = pos + align first.size := by unfold align; omega
      have hnext : (pos + align first.size) % 4 = 0 := by unfold align; omega
      cases i with
      | zero =>
          cases hi
          refine ⟨rfl, ?_⟩
          exact (at_append.mp hfirst).1
      | succ i =>
          obtain ⟨hrow, hdata⟩ := ih (pos + align first.size) hnext hrest i image hi
          have hsum : pos + (((first :: images).take (i + 1)).map fun image => align image.size).sum =
              pos + align first.size + ((images.take i).map fun image => align image.size).sum := by
            rw [List.take_succ_cons, List.map_cons, List.sum_cons]
            omega
          rw [hsum]
          refine ⟨?_, hdata⟩
          rw [List.map_cons, table, List.getElem?_cons_succ, halign]
          exact hrow

/-- The table has an entry for each size. -/
theorem length_table : ∀ (szs : List Nat) (pos : Nat), (table pos szs).length = szs.length
  | [], _ => rfl
  | sz :: szs, pos => by rw [table, List.length_cons, length_table szs, List.length_cons]

/-- An index that is in the list. -/
theorem pyIndex_natCast {α : Type} {l : List α} {i : Nat} {a : α} (h : l[i]? = some a) :
    pyIndex l (i : Int) = pure a := by
  have hneg : ¬ (i : Int) < 0 := by omega
  simp only [pyIndex, if_neg hneg, Int.toNat_natCast, h]

/-- The rows that a multi image has. -/
theorem parse_packed (h : Header) (size : UInt32) (images : List SubImage) :
    parseStream (packMulti h size images) = .returned
      (h.parsed typeMulti size
        (table (64 + 4 * (images.length + 1)) (images.map SubImage.size))) := by
  rw [packMulti, parseStream_encode, if_pos rfl, sizes_words, returned_bind, List.length_map]
  · rfl
  · intro sz hsz
    obtain ⟨image, -, rfl⟩ := List.mem_map.mp hsz
    exact ⟨image.nonempty, image.fits⟩

/-- The images are behind the table. -/
theorem at_images (h : Header) (size : UInt32) (images : List SubImage) :
    At (packMulti h size images) (64 + 4 * (images.length + 1))
      (images.flatMap SubImage.padded) := by
  have hfront : (h.encode typeMulti size ++ ((images.map SubImage.size).flatMap word ++ word 0)).length =
      64 + 4 * (images.length + 1) := by
    rw [List.length_append, length_encode, List.length_append, length_flatMap_word, length_word,
      List.length_map]
    omega
  have hfile : packMulti h size images =
      (h.encode typeMulti size ++ ((images.map SubImage.size).flatMap word ++ word 0)) ++
        images.flatMap SubImage.padded := by
    rw [packMulti]
    simp only [List.append_assoc]
  have hdrop : (packMulti h size images).drop (64 + 4 * (images.length + 1)) =
      images.flatMap SubImage.padded := by
    rw [hfile, ← hfront, List.drop_left]
  exact ⟨[], by rw [List.append_nil, hdrop]⟩

/-- The images that a file has, and what is extracted: **packing is undone**.  Of an image that is no
    multi image the payload is extracted, whatever stands behind it. -/
theorem extract_packed (h : Header) (size : UInt32) :
    (∀ images : List SubImage,
      (∃ p, parseStream (packMulti h size images) = .returned p ∧
        p.images.length = images.length ∧
        ∀ i image, images[i]? = some image → p.images[i]? = some (image.size, offset images i)) ∧
      ∀ (i : Nat) (image : SubImage), images[i]? = some image →
        extractRun (packMulti h size images) (some i) = .returned (0, image.data)) ∧
    ∀ (type : UInt8) (payload rest : Bytes), type ≠ typeMulti → payload.length = size.toNat →
      extractRun (h.encode type size ++ (payload ++ rest)) none = .returned (0, payload) := by
  refine ⟨fun images => ⟨⟨_, parse_packed h size images, ?_, ?_⟩, ?_⟩, ?_⟩
  · exact (length_table _ _).trans (List.length_map _)
  · intro i image hi
    exact (table_at images _ (by omega) (at_images h size images) i image hi).1
  · intro i image hi
    obtain ⟨hrow, hdata⟩ := table_at images _ (by omega) (at_images h size images) i image hi
    rw [extractRun, parse_packed, returned_bind, if_neg (fun hne => hne rfl)]
    show (pyIndex (table (64 + 4 * (images.length + 1)) (images.map SubImage.size)) (i : Int) >>= _) = _
    rw [pyIndex_natCast hrow]
    have hread : read (packMulti h size images) (offset images i) image.size =
        (image.data, offset images i + image.size) := read_at hdata rfl
    show Outcome.returned (0, (read (packMulti h size images) (offset images i) image.size).1) = _
    rw [hread]
  · intro type payload rest htype hlen
    rw [extractRun, parseStream_encode, if_neg htype]
    have hne : (h.parsed type size []).ihType ≠ typeMulti := htype
    rw [pure_eq, returned_bind, if_pos hne]
    have hat : At (h.encode type size ++ (payload ++ rest)) 64 payload := by
      refine ⟨rest, ?_⟩
      rw [← length_encode h type size, List.drop_left]
    show Outcome.returned (0, (read _ 64 size.toNat).1) = _
    rw [read_at hat hlen.symm]

/-- A header of zeros. -/
def blankHeader : Header where
  hcrc := 0
  time := 0
  load := 0
  ep := 0
  dcrc := 0
  os := 5
  arch := 2
  comp := 1
  name := List.replicate 32 0
  nameLength := rfl

/-- An image of one byte. -/
def oneByte : SubImage where
  data := [1]
  nonempty := by decide
  fits := by decide

def fiveBytes : SubImage where
  data := [2, 3, 4, 5, 6]
  nonempty := by decide
  fits := by decide

/-- The second of the two, and a kernel alone. -/
theorem extract_packed_two :
    extractRun (packMulti blankHeader 0 [oneByte, fiveBytes]) (some 1) =
        .returned (0, [2, 3, 4, 5, 6]) ∧
      extractRun (blankHeader.encode 2 3 ++ ([7, 8, 9] ++ [])) none = .returned (0, [7, 8, 9]) :=
  ⟨((extract_packed blankHeader 0).1 [oneByte, fiveBytes]).2 1 fiveBytes rfl,
    (extract_packed blankHeader 3).2 2 [7, 8, 9] [] (by decide) rfl⟩

end DentOS.Legacy
