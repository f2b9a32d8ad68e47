import MipsSim.Memory.Basic

/-!
# The ELF loader

The parser and loader of `elf.c`. Its return values are `none` for `0` and otherwise one of the
`ELF_ERROR_*` values; a file is its list of bytes, and a stream is a file with a position. `fseek`
to an offset behind the end of the file succeeds, as it does in stdio, and so does `fclose`.
-/

namespace MipsSim

/-- The `ELF_ERROR_*` constants. -/
inductive ElfError where
  | ioError
  | outOfMem
  | notElf
  | notSupported
  deriving DecidableEq, Repr

/-! ### Streams -/

/-- A `FILE` that is open for reading. -/
structure Stream where
  content : List Byte
  pos : ℕ

/-- `fseek(stream, offset, SEEK_SET)`. -/
def Stream.fseek (stream : Stream) (offset : ℕ) : Stream := { stream with pos := offset }

/-- The bytes that `fread(dst, size, 1, stream)` stores to `dst`. -/
def Stream.fread (stream : Stream) (size : ℕ) : List Byte :=
  (stream.content.drop stream.pos).take size

/-- The stream after reading `size` bytes, or those that are left. -/
def Stream.advance (stream : Stream) (size : ℕ) : Stream :=
  { stream with pos := stream.pos + (stream.fread size).length }

/-- `fread(dst, size, 1, stream)` returns `1`. It returns `0` when `size` is `0`. -/
def Stream.freadOk (stream : Stream) (size : ℕ) : Prop :=
  size ≠ 0 ∧ (stream.fread size).length = size

instance (stream : Stream) (size : ℕ) : Decidable (stream.freadOk size) :=
  inferInstanceAs (Decidable (_ ∧ _))

/-- The loop of `read_be_half_words` and `read_be_words`: `n` reads of `size` bytes into `buf`, each
put together by `assemble`, with the array that is filled. -/
def readBe {α : Type} (size : ℕ) (assemble : (ℕ → Byte) → α) (stream : Stream) :
    ℕ → Except ElfError (List α × Stream)
  | 0 => .ok ([], stream)
  | n + 1 =>
    if stream.freadOk size then do
      let buf (i : ℕ) := ((stream.fread size)[i]?).getD 0
      let (dst, stream) ← readBe size assemble (stream.advance size) n
      pure (assemble buf :: dst, stream)
    else .error .ioError

/-- The value that `read_be_half_words` assigns from `buf`. -/
def assembleHalf (buf : ℕ → Byte) : BitVec 16 :=
  ((buf 0).setWidth 16 <<< 8) ||| (buf 1).setWidth 16

/-- `read_be_half_words`. -/
def readBeHalfWords (stream : Stream) (n : ℕ) : Except ElfError (List (BitVec 16) × Stream) :=
  readBe 2 assembleHalf stream n

/-- The value that `read_be_words` assigns from `buf`. -/
def assembleWord (buf : ℕ → Byte) : Word :=
  ((buf 0).setWidth 32 <<< 24) ||| ((buf 1).setWidth 32 <<< 16) |||
    ((buf 2).setWidth 32 <<< 8) ||| (buf 3).setWidth 32

/-- `read_be_words`. -/
def readBeWords (stream : Stream) (n : ℕ) : Except ElfError (List Word × Stream) :=
  readBe 4 assembleWord stream n

/-! ### The file header -/

/-- `EI_NIDENT`. -/
def eiNident : ℕ := 16

/-- `struct ehdr`. -/
structure Ehdr where
  eIdent : List Byte
  eType : BitVec 16
  eMachine : BitVec 16
  eVersion : Word
  eEntry : Word
  ePhoff : Word
  eShoff : Word
  eFlags : Word
  eEhsize : BitVec 16
  ePhentsize : BitVec 16
  ePhnum : BitVec 16
  eShentsize : BitVec 16
  eShnum : BitVec 16
  eShstrndx : BitVec 16

/-- `check_magic_number`. -/
def checkMagicNumber (eIdent : List Byte) : Except ElfError Unit :=
  if eIdent[0]? ≠ some 0x7F#8 ∨ eIdent[1]? ≠ some 0x45#8 ∨ eIdent[2]? ≠ some 0x4C#8 ∨
      eIdent[3]? ≠ some 0x46#8 then
    .error .notElf
  else .ok ()

/-- `check_elf_class_32`, with `ELFCLASS32` for the only class. -/
def checkElfClass32 (eIdent : List Byte) : Except ElfError Unit :=
  if eIdent[4]? ≠ some 1#8 then .error .notSupported else .ok ()

/-- `check_data_encoding`, with `ELFDATA2MSB` for the only encoding. -/
def checkDataEncoding (eIdent : List Byte) : Except ElfError Unit :=
  if eIdent[5]? ≠ some 2#8 then .error .notSupported else .ok ()

/-- `read_elf_ident`. -/
def readElfIdent (stream : Stream) : Except ElfError (List Byte × Stream) :=
  if stream.freadOk eiNident then do
    let eIdent := stream.fread eiNident
    checkMagicNumber eIdent
    checkElfClass32 eIdent
    checkDataEncoding eIdent
    pure (eIdent, stream.advance eiNident)
  else .error .ioError

/-- `check_type`, with `ET_EXEC` for the only type. -/
def checkType (eType : BitVec 16) : Except ElfError Unit :=
  if eType ≠ 2#16 then .error .notSupported else .ok ()

/-- `check_machine`, with `EM_MIPS` for the only machine. -/
def checkMachine (eMachine : BitVec 16) : Except ElfError Unit :=
  if eMachine ≠ 8#16 then .error .notSupported else .ok ()

/-- `read_type_and_machine`. -/
def readTypeAndMachine (stream : Stream) : Except ElfError (BitVec 16 × BitVec 16 × Stream) := do
  let (dst, stream) ← readBeHalfWords stream 2
  checkType (dst.getD 0 0)
  checkMachine (dst.getD 1 0)
  pure (dst.getD 0 0, dst.getD 1 0, stream)

/-- `read_ehdr`. The words from `e_version` on and the half words from `e_ehsize` on are read as
arrays over the members of the structure. -/
def readEhdr (stream : Stream) : Except ElfError (Ehdr × Stream) := do
  let (eIdent, stream) ← readElfIdent stream
  let (eType, eMachine, stream) ← readTypeAndMachine stream
  let (words, stream) ← readBeWords stream 5
  let (halfs, stream) ← readBeHalfWords stream 6
  pure ({ eIdent := eIdent
          eType := eType
          eMachine := eMachine
          eVersion := words.getD 0 0
          eEntry := words.getD 1 0
          ePhoff := words.getD 2 0
          eShoff := words.getD 3 0
          eFlags := words.getD 4 0
          eEhsize := halfs.getD 0 0
          ePhentsize := halfs.getD 1 0
          ePhnum := halfs.getD 2 0
          eShentsize := halfs.getD 3 0
          eShnum := halfs.getD 4 0
          eShstrndx := halfs.getD 5 0 }, stream)

/-! ### Segments -/

/-- `PT_NULL`. -/
def ptNull : Word := 0x0#32

/-- `PT_LOAD`. -/
def ptLoad : Word := 0x1#32

/-- `PT_NOTE`. -/
def ptNote : Word := 0x4#32

/-- `PT_MIPS_ABIFLAGS`. -/
def ptMipsAbiflags : Word := 0x70000003#32

/-- The six members of `struct p_header` that the loader sets. -/
structure PHeader where
  pType : Word
  pOffset : Word
  pVaddr : Word
  pPaddr : Word
  pFilesz : Word
  pMemsz : Word
  deriving DecidableEq, Repr

/-- `sizeof(struct p_header)`, with the two members that are not used. -/
def sizeofPHeader : ℕ := 32

/-- Storing bytes through a host pointer into `pmem`, as `memset` and `fread` do. -/
def Mmu.store (mem : Mmu) (ptr : Option ℕ) (bs : List Byte) : Except HostFault Mmu :=
  if bs = [] then .ok mem
  else
    match ptr with
    | none => .error .nullPointer
    | some o =>
      if o + bs.length ≤ mem.size then .ok (mem.withPmem (ByteStore.writeBlock mem.pmem o bs))
      else .error .outOfBounds

/-- `copy_segment`, with the return value and the memory it leaves. -/
def copySegment (stream : Stream) (phdr : PHeader) (mem : Mmu) :
    Except HostFault (Option ElfError × Mmu) := do
  let segmem := translate phdr.pVaddr mem
  let mem ← mem.store segmem (List.replicate phdr.pMemsz.toNat 0)
  let stream := stream.fseek phdr.pOffset.toNat
  let mem ← mem.store segmem (stream.fread phdr.pFilesz.toNat)
  if stream.freadOk phdr.pFilesz.toNat then pure (none, mem) else pure (some .ioError, mem)

/-- `copy_cur_segment_aux`. -/
def copyCurSegmentAux (stream : Stream) (mem : Mmu) :
    Except HostFault (Option ElfError × Mmu) :=
  match readBeWords stream 6 with
  | .error _ => .ok (some .ioError, mem)
  | .ok (dst, stream) =>
    let phdr : PHeader :=
      { pType := dst.getD 0 0
        pOffset := dst.getD 1 0
        pVaddr := dst.getD 2 0
        pPaddr := dst.getD 3 0
        pFilesz := dst.getD 4 0
        pMemsz := dst.getD 5 0 }
    if phdr.pType = ptNull ∨ phdr.pType = ptNote ∨ phdr.pType = ptMipsAbiflags then .ok (none, mem)
    else if phdr.pType = ptLoad then copySegment stream phdr mem
    else .ok (some .notSupported, mem)

/-- `copy_cur_segment`: whatever the entry did to the position, the stream is left behind the
entry. -/
def copyCurSegment (ehdr : Ehdr) (stream : Stream) (mem : Mmu) :
    Except HostFault (Option ElfError × Stream × Mmu) := do
  let origin := stream.pos
  let (retval, mem) ← copyCurSegmentAux stream mem
  pure (retval, stream.fseek (origin + ehdr.ePhentsize.toNat), mem)

/-- The loop of `copy_all_segments` over the entries that are left. -/
def copySegments (ehdr : Ehdr) : ℕ → Stream → Mmu → Except HostFault (Option ElfError × Mmu)
  | 0, _, mem => .ok (none, mem)
  | n + 1, stream, mem => do
    let (retval, stream, mem) ← copyCurSegment ehdr stream mem
    match retval with
    | some e => pure (some e, mem)
    | none => copySegments ehdr n stream mem

/-- `copy_all_segments`. -/
def copyAllSegments (ehdr : Ehdr) (stream : Stream) (mem : Mmu) :
    Except HostFault (Option ElfError × Mmu) :=
  copySegments ehdr ehdr.ePhnum.toNat (stream.fseek ehdr.ePhoff.toNat) mem

/-- `elf_open`; `none` is a path that cannot be opened. -/
def elfOpen : Option (List Byte) → Except ElfError (Ehdr × Stream)
  | none => .error .ioError
  | some content => readEhdr ⟨content, 0⟩

/-- `elf_dump`, with the value of `*entry` before the call as an argument and the one after it in
the result. -/
def elfDump (path : Option (List Byte)) (entry : Word) (mem : Mmu) :
    Except HostFault (Option ElfError × Word × Mmu) :=
  match elfOpen path with
  | .error e => .ok (some e, entry, mem)
  | .ok (ehdr, stream) => do
    let (retval, mem) ← copyAllSegments ehdr stream mem
    pure (retval, ehdr.eEntry, mem)

end MipsSim
