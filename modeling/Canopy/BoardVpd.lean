/-
The product data of the board, from its EEPROM to D-Bus.

Three programs hand it on: U-Boot's `gxp_sysinfo` reads it from the EEPROM,
`ft_board_setup` writes it to the device tree for Linux, and the parser of
entity-manager publishes what it finds there.  One `std::ifstream` serves all
properties of a node in turn; a property without a byte leaves it open, and it
opens nothing after that.

* `readLines_eq` — what the stream gives, whatever the properties are;
* `getStr_cell` — the cells of an EEPROM that was accepted;
* `published_iff` — the baseboard is published exactly when the EEPROM was accepted, and
  then every string is the one of its cell, up to a newline.
-/
import Canopy.BoardEeprom
import Mathlib.Logic.Function.Basic

namespace GxpVpd

open Bytes GxpEeprom

def enodev : ℤ := 19

def enospc : ℤ := 28

def eio : ℤ := 5

/-! ### U-Boot -/

/-- A cell of the device tree of U-Boot. -/
structure Cell where
  offset : ℕ
  size : ℕ

def serialNumber : Cell := ⟨0x01, 0x10⟩

def partNumber : Cell := ⟨0x6d, 0x10⟩

def pcaSerialNumber : Cell := ⟨0x90, 0x10⟩

def pcaPartNumber : Cell := ⟨0xa0, 0x10⟩

/-- The size of the EEPROM in the device tree. -/
def eepromSize : ℕ := 0x100

/-- The device behind the cells, if it was probed; a cell of one that was not has none. -/
def nvmem (mem : Bytes) : Option Eeprom :=
  if h : probe mem = .ok () then some ⟨mem, h⟩ else none

/-- `nvmem_cell_read`, for as many bytes as the cell has. -/
def Cell.read (cell : Cell) (e : Eeprom) : Except ℤ Bytes :=
  match e.read cell.offset cell.size with
  | .error ret => .error ret
  | .ok bs => if bs.length ≠ cell.size then .error (-eio) else .ok bs

inductive SysId where
  | boardModel
  | boardManufacturer
  | systemSerial
  | systemProduct
  | baseboardSerial
  | baseboardProduct
  | other
  deriving DecidableEq

/-- "GXP" -/
def sysinfoModel : Bytes := [0x47, 0x58, 0x50]

/-- "Hewlett Packard Enterprise" -/
def sysinfoManufacturer : Bytes :=
  [0x48, 0x65, 0x77, 0x6c, 0x65, 0x74, 0x74, 0x20, 0x50, 0x61, 0x63, 0x6b, 0x61, 0x72, 0x64, 0x20,
    0x45, 0x6e, 0x74, 0x65, 0x72, 0x70, 0x72, 0x69, 0x73, 0x65]

/-- `strlcpy` of a string to a buffer of `size` bytes. -/
def strlcpy (src : Bytes) (size : ℕ) : Bytes := src.take (size - 1) ++ [0]

/-- What `gxp_sysinfo_get_str` does with a cell. -/
def getCell (e? : Option Eeprom) (cell : Cell) (size : ℕ) : Except ℤ Bytes :=
  match e? with
  | none => .error (-enodev)
  | some e =>
    if size ≤ cell.size then .error (-enospc)
    else
      match cell.read e with
      | .error ret => .error ret
      | .ok bs => .ok (bs ++ [0])

/-- `gxp_sysinfo_get_str`: what it stores in a buffer of `size` bytes. -/
def getStr (e? : Option Eeprom) (size : ℕ) : SysId → Except ℤ Bytes
  | .boardModel => .ok (strlcpy sysinfoModel size)
  | .boardManufacturer => .ok (strlcpy sysinfoManufacturer size)
  | .systemSerial => getCell e? serialNumber size
  | .systemProduct => getCell e? partNumber size
  | .baseboardSerial => getCell e? pcaSerialNumber size
  | .baseboardProduct => getCell e? pcaPartNumber size
  | .other => .error (-einval)

/-! ### The device tree -/

inductive PropName where
  | compatible
  | model
  | serialNumber
  | partNumber
  | manufacturer
  deriving DecidableEq

/-- The properties of a node. -/
abbrev Node := PropName → Option Bytes

structure Fdt where
  root : Node
  baseboard : Option Node

/-- `fdt_setprop_string`, the terminating NUL included. -/
def setpropString (n : Node) (name : PropName) (str : Bytes) : Node :=
  Function.update n name (some (cstr str ++ [0]))

/-- The property is set when sysinfo has the string; the buffer has 64 bytes. -/
def setFrom (e? : Option Eeprom) (n : Node) (name : PropName) (id : SysId) : Node :=
  match getStr e? 64 id with
  | .error _ => n
  | .ok str => setpropString n name str

/-- "hpe,gxp-baseboard" -/
def baseboardCompatible : Bytes :=
  [0x68, 0x70, 0x65, 0x2c, 0x67, 0x78, 0x70, 0x2d, 0x62, 0x61, 0x73, 0x65, 0x62, 0x6f, 0x61, 0x72,
    0x64]

/-- `ft_board_setup` -/
def ftBoardSetup (e? : Option Eeprom) (blob : Fdt) : Fdt where
  root :=
    let n := setFrom e? blob.root .manufacturer .boardManufacturer
    let n := setFrom e? n .serialNumber .systemSerial
    setFrom e? n .partNumber .systemProduct
  baseboard :=
    match blob.baseboard with
    | some n => some n  -- `fdt_add_subnode` fails
    | none =>
      let n := setpropString (fun _ => none) .compatible baseboardCompatible
      let n := setFrom e? n .serialNumber .baseboardSerial
      some (setFrom e? n .partNumber .baseboardProduct)

/-! ### The parser -/

/-- A `std::ifstream`. -/
structure FileStream where
  isOpen : Bool
  /-- `failbit` -/
  fails : Bool
  eof : Bool
  rest : Bytes

/-- A stream that was opened on nothing yet. -/
def FileStream.fresh : FileStream := ⟨false, false, false, []⟩

/-- `open`: it clears the state when it succeeds. -/
def FileStream.openFile (s : FileStream) (file : Option Bytes) : FileStream :=
  match s.isOpen, file with
  | false, some bs => ⟨true, false, false, bs⟩
  | _, _ => { s with fails := true }

/-- `std::getline`: the line, if it extracts a character. -/
def FileStream.getline (s : FileStream) : Option Bytes × FileStream :=
  if s.fails ∨ s.eof then (none, { s with fails := true })
  else if s.rest = [] then (none, { s with fails := true, eof := true })
  else
    (some (s.rest.takeWhile (· ≠ 10)),
      { s with eof := 10 ∉ s.rest, rest := (s.rest.dropWhile (· ≠ 10)).drop 1 })

def FileStream.close (s : FileStream) : FileStream := { s with isOpen := false }

/-- One property of `populateFromDeviceTree`: it is opened, and closed if a line is read. -/
def FileStream.readProperty (s : FileStream) (file : Option Bytes) : Option Bytes × FileStream :=
  let s := s.openFile file
  if s.fails then (none, s)
  else
    match s.getline with
    | (some line, s) => (some line, s.close)
    | (none, s) => (none, s)

/-- The properties of a node in turn. -/
def readLines : FileStream → List (Option Bytes) → List (Option Bytes)
  | _, [] => []
  | s, file :: files =>
    let (line, s) := s.readProperty file
    line :: readLines s files

/-- The properties of an object on D-Bus that were set. -/
structure Asset where
  model : Option Bytes
  serialNumber : Option Bytes
  partNumber : Option Bytes
  manufacturer : Option Bytes
  deriving DecidableEq

/-- `populateFromDeviceTree` -/
def populateFromDeviceTree (n : Node) : Asset :=
  let (model, s) := FileStream.fresh.readProperty (n .model)
  let (serial, s) := s.readProperty (n .serialNumber)
  let (part, s) := s.readProperty (n .partNumber)
  let (manufacturer, _) := s.readProperty (n .manufacturer)
  ⟨model, serial, part, manufacturer⟩

/-- The objects that `main` publishes. -/
structure MachineContext where
  system : Option Asset
  baseboard : Option Asset
  deriving DecidableEq

def machineContext (fdt : Fdt) : MachineContext where
  system := if (fdt.root .model).isSome then some (populateFromDeviceTree fdt.root) else none
  baseboard :=
    match fdt.baseboard with
    | none => none
    | some n => if (n .serialNumber).isSome then some (populateFromDeviceTree n) else none

/-! ### What the stream gives -/

/-- Up to a newline. -/
def line (bs : Bytes) : Bytes := bs.takeWhile (· ≠ 10)

private theorem readProperty_closed {s : FileStream} (h : s.isOpen = false) (file : Option Bytes) :
    (s.readProperty file).1 = (if file = some [] then none else file.map line) ∧
      (s.readProperty file).2.isOpen = decide (file = some []) := by
  obtain ⟨isOpen, fails, eof, rest⟩ := s
  obtain rfl : isOpen = false := h
  cases file with
  | none => exact ⟨rfl, rfl⟩
  | some bs =>
    cases bs with
    | nil => exact ⟨rfl, rfl⟩
    | cons b bs => exact ⟨rfl, rfl⟩

/-- Once a property without a byte has been opened, nothing else is. -/
theorem readProperty_open {s : FileStream} (h : s.isOpen = true) (file : Option Bytes) :
    (s.readProperty file).1 = none ∧ (s.readProperty file).2.isOpen = true := by
  obtain ⟨isOpen, fails, eof, rest⟩ := s
  obtain rfl : isOpen = true := h
  cases file with
  | none => exact ⟨rfl, rfl⟩
  | some bs => exact ⟨rfl, rfl⟩

private theorem readLines_cons (s : FileStream) (file : Option Bytes)
    (files : List (Option Bytes)) :
    readLines s (file :: files) =
      (s.readProperty file).1 :: readLines (s.readProperty file).2 files := rfl

private theorem readLines_open {s : FileStream} (h : s.isOpen = true)
    (files : List (Option Bytes)) :
    readLines s files = List.replicate files.length none := by
  induction files generalizing s with
  | nil => rfl
  | cons file files ih =>
    obtain ⟨hnone, hopen⟩ := readProperty_open h file
    rw [readLines_cons, hnone, ih hopen, List.length_cons, List.replicate_succ]

/-- **The properties before the first one without a byte are read**, and no other. -/
theorem readLines_eq {s : FileStream} (h : s.isOpen = false) (files : List (Option Bytes)) :
    readLines s files = (files.takeWhile (· ≠ some [])).map (Option.map line) ++
      List.replicate (files.dropWhile (· ≠ some [])).length none := by
  induction files generalizing s with
  | nil => rfl
  | cons file files ih =>
    obtain ⟨hline, hopen⟩ := readProperty_closed h file
    rw [readLines_cons, hline]
    by_cases hempty : file = some []
    · rw [decide_eq_true hempty] at hopen
      rw [if_pos hempty, readLines_open hopen, List.takeWhile_cons_of_neg (by simpa using hempty),
        List.dropWhile_cons_of_neg (by simpa using hempty)]
      rfl
    · rw [decide_eq_false hempty] at hopen
      rw [if_neg hempty, ih hopen, List.takeWhile_cons_of_pos (by simpa using hempty),
        List.dropWhile_cons_of_pos (by simpa using hempty)]
      rfl

/-- A node whose properties all have a byte is published as it is. -/
theorem populateFromDeviceTree_eq {n : Node} (h : ∀ name ≠ .compatible, n name ≠ some []) :
    populateFromDeviceTree n =
      ⟨(n .model).map line, (n .serialNumber).map line, (n .partNumber).map line,
        (n .manufacturer).map line⟩ := by
  have hlines := readLines_eq (s := .fresh) rfl
    [n .model, n .serialNumber, n .partNumber, n .manufacturer]
  have hall : ∀ file ∈ [n .model, n .serialNumber, n .partNumber, n .manufacturer],
      decide (file ≠ some []) = true := by
    intro file hfile
    simp only [List.mem_cons, List.not_mem_nil, or_false] at hfile
    rcases hfile with rfl | rfl | rfl | rfl
    all_goals exact decide_eq_true (h _ (by decide))
  rw [List.takeWhile_eq_self_iff.mpr hall, List.dropWhile_eq_nil_iff.mpr hall] at hlines
  -- the stream goes through the four properties in this order
  have hfour : readLines .fresh [n .model, n .serialNumber, n .partNumber, n .manufacturer] =
      [(populateFromDeviceTree n).model, (populateFromDeviceTree n).serialNumber,
        (populateFromDeviceTree n).partNumber, (populateFromDeviceTree n).manufacturer] := rfl
  rw [hfour, List.length_nil, List.replicate_zero, List.append_nil] at hlines
  clear hfour
  generalize populateFromDeviceTree n = asset at hlines ⊢
  obtain ⟨model, serial, part, manufacturer⟩ := asset
  obtain ⟨rfl, rfl, rfl, rfl⟩ : _ ∧ _ ∧ _ ∧ _ := by simpa using hlines
  rfl

/-! ### From cell to object -/

/-- What a reader of the property takes for the string. -/
def wire (property : Option Bytes) : Option Bytes := property.map cstr

/-- The string of a cell, up to a newline. -/
def Cell.string (cell : Cell) (mem : Bytes) : Bytes :=
  line (cstr (field mem cell.offset cell.size))

/-- The terminating NUL goes along with a string that has no newline, and does not show. -/
theorem wire_line (bs : Bytes) : wire (some (line (cstr bs ++ [0]))) = some (line (cstr bs)) := by
  have hnul : (0 : UInt8) ∉ cstr bs := nul_notMem_cstr bs
  refine congrArg some ?_
  rw [line, line, List.takeWhile_append]
  split
  · next hall =>
    -- the line goes on to the NUL
    rw [List.takeWhile_cons_of_pos (by decide), List.takeWhile_nil, cstr_append_nul,
      cstr_eq_self hnul]
    exact ((List.takeWhile_sublist _).eq_of_length hall).symm
  · exact cstr_eq_self fun hmem => hnul ((List.takeWhile_sublist _).mem hmem)

/-! ### The cells of an EEPROM that was accepted -/

variable {mem : Bytes}

/-- The cells the sysinfo driver reads. -/
def cells : List Cell := [serialNumber, partNumber, pcaSerialNumber, pcaPartNumber]

private theorem getCell_eq (h : probe mem = .ok ()) (hlen : mem.length = eepromSize) {cell : Cell}
    (hcell : cell ∈ cells) :
    getCell (nvmem mem) cell 64 = .ok (field mem cell.offset cell.size ++ [0]) := by
  have hbounds : ∀ c ∈ cells, 0 < c.size ∧ c.size < 64 ∧ c.offset + c.size ≤ eepromSize := by
    decide
  obtain ⟨hpos, hroom, hend⟩ := hbounds cell hcell
  have hread : cell.read ⟨mem, h⟩ = .ok (field mem cell.offset cell.size) := by
    have hin : cell.offset + cell.size ≤ mem.length := hlen ▸ hend
    rw [Cell.read, Eeprom.read_field ⟨mem, h⟩ hpos hin]
    exact if_neg fun hne => hne (field_length hin)
  rw [nvmem, dif_pos h, getCell, if_neg (not_le.mpr hroom), hread]

private theorem getCell_none (h : probe mem ≠ .ok ()) (cell : Cell) :
    getCell (nvmem mem) cell 64 = .error (-enodev) := by
  rw [nvmem, dif_neg h]
  rfl

/-- What a property is set to, from an EEPROM that was accepted. -/
theorem setFrom_cell (n : Node) (name : PropName) (id : SysId) (cell : Cell)
    (hid : getStr (nvmem mem) 64 id = getCell (nvmem mem) cell 64) (h : probe mem = .ok ())
    (hlen : mem.length = eepromSize) (hcell : cell ∈ cells) :
    setFrom (nvmem mem) n name id =
      Function.update n name (some (cstr (field mem cell.offset cell.size) ++ [0])) := by
  rw [setFrom, hid, getCell_eq h hlen hcell]
  show Function.update n name (some (cstr (field mem cell.offset cell.size ++ [0]) ++ [0])) = _
  rw [cstr_append_nul]

private theorem setFrom_none (n : Node) (name : PropName) (id : SysId) (cell : Cell)
    (hid : getStr (nvmem mem) 64 id = getCell (nvmem mem) cell 64) (h : probe mem ≠ .ok ()) :
    setFrom (nvmem mem) n name id = n := by
  rw [setFrom, hid, getCell_none h]

/-- The root node that Linux is given. -/
theorem root_ftBoardSetup (h : probe mem = .ok ()) (hlen : mem.length = eepromSize) (fdt : Fdt) :
    (ftBoardSetup (nvmem mem) fdt).root .model = fdt.root .model ∧
      (ftBoardSetup (nvmem mem) fdt).root .serialNumber =
        some (cstr (field mem 0x01 0x10) ++ [0]) ∧
      (ftBoardSetup (nvmem mem) fdt).root .partNumber =
        some (cstr (field mem 0x6d 0x10) ++ [0]) ∧
      (ftBoardSetup (nvmem mem) fdt).root .manufacturer = some (sysinfoManufacturer ++ [0]) := by
  have hroot : (ftBoardSetup (nvmem mem) fdt).root =
      Function.update (Function.update
        (setpropString fdt.root .manufacturer (strlcpy sysinfoManufacturer 64))
        .serialNumber (some (cstr (field mem 0x01 0x10) ++ [0])))
        .partNumber (some (cstr (field mem 0x6d 0x10) ++ [0])) := by
    show setFrom _ (setFrom _ (setFrom _ _ _ .boardManufacturer) _ _) _ _ = _
    rw [setFrom_cell _ _ .systemProduct partNumber rfl h hlen (by simp [cells]),
      setFrom_cell _ _ .systemSerial serialNumber rfl h hlen (by simp [cells])]
    rfl
  rw [hroot]
  exact ⟨rfl, rfl, rfl, rfl⟩

/-- The node of the baseboard, where the tree had none. -/
theorem baseboard_ftBoardSetup (h : probe mem = .ok ()) (hlen : mem.length = eepromSize)
    {fdt : Fdt} (hbaseboard : fdt.baseboard = none) :
    ∃ n, (ftBoardSetup (nvmem mem) fdt).baseboard = some n ∧ n .model = none ∧
      n .serialNumber = some (cstr (field mem 0x90 0x10) ++ [0]) ∧
      n .partNumber = some (cstr (field mem 0xa0 0x10) ++ [0]) ∧ n .manufacturer = none := by
  rw [ftBoardSetup, hbaseboard]
  refine ⟨_, rfl, ?_⟩
  rw [setFrom_cell _ _ .baseboardProduct pcaPartNumber rfl h hlen (by simp [cells]),
    setFrom_cell _ _ .baseboardSerial pcaSerialNumber rfl h hlen (by simp [cells])]
  exact ⟨rfl, rfl, rfl, rfl⟩

private theorem baseboard_refused (h : probe mem ≠ .ok ()) {fdt : Fdt}
    (hbaseboard : fdt.baseboard = none) :
    ∃ n, (ftBoardSetup (nvmem mem) fdt).baseboard = some n ∧ n .serialNumber = none := by
  rw [ftBoardSetup, hbaseboard]
  refine ⟨_, rfl, ?_⟩
  rw [setFrom_none _ _ .baseboardProduct pcaPartNumber rfl h,
    setFrom_none _ _ .baseboardSerial pcaSerialNumber rfl h]
  rfl

/-- **The product data arrives.**  The baseboard is published exactly when the EEPROM was
accepted, and every string is then the one of its cell, up to a newline. -/
theorem published_iff {fdt : Fdt} (hlen : mem.length = eepromSize)
    (hmodel : ∃ b bs, fdt.root .model = some (b :: bs)) (hbaseboard : fdt.baseboard = none) :
    ((machineContext (ftBoardSetup (nvmem mem) fdt)).baseboard.isSome ↔ probe mem = .ok ()) ∧
      (probe mem = .ok () → ∃ system baseboard,
        machineContext (ftBoardSetup (nvmem mem) fdt) = ⟨some system, some baseboard⟩ ∧
          wire system.serialNumber = some (serialNumber.string mem) ∧
          wire system.partNumber = some (partNumber.string mem) ∧
          wire system.manufacturer = some sysinfoManufacturer ∧
          wire baseboard.serialNumber = some (pcaSerialNumber.string mem) ∧
          wire baseboard.partNumber = some (pcaPartNumber.string mem)) := by
  by_cases h : probe mem = .ok ()
  · -- every property that is set has its NUL at least
    have hset : ∀ bs : Bytes, some (bs ++ [0]) ≠ some [] := fun bs => by simp
    obtain ⟨b, bs, hmodel⟩ := hmodel
    obtain ⟨hmodel', hserial, hpart, hmanufacturer⟩ := root_ftBoardSetup h hlen fdt
    obtain ⟨n, hn, hbbModel, hbbSerial, hbbPart, hbbManufacturer⟩ :=
      baseboard_ftBoardSetup h hlen hbaseboard
    have hsystem : ∀ name ≠ .compatible, (ftBoardSetup (nvmem mem) fdt).root name ≠ some [] := by
      intro name hname
      cases name with
      | compatible => exact absurd rfl hname
      | model => rw [hmodel', hmodel]; simp
      | serialNumber => rw [hserial]; exact hset _
      | partNumber => rw [hpart]; exact hset _
      | manufacturer => rw [hmanufacturer]; exact hset _
    have hnode : ∀ name ≠ .compatible, n name ≠ some [] := by
      intro name hname
      cases name with
      | compatible => exact absurd rfl hname
      | model => rw [hbbModel]; simp
      | serialNumber => rw [hbbSerial]; exact hset _
      | partNumber => rw [hbbPart]; exact hset _
      | manufacturer => rw [hbbManufacturer]; simp
    have hcontext : machineContext (ftBoardSetup (nvmem mem) fdt) =
        ⟨some (populateFromDeviceTree (ftBoardSetup (nvmem mem) fdt).root),
          some (populateFromDeviceTree n)⟩ := by
      rw [machineContext, hn, hmodel', hmodel]
      dsimp only
      rw [hbbSerial]
      rfl
    rw [hcontext, populateFromDeviceTree_eq hsystem, populateFromDeviceTree_eq hnode]
    refine ⟨iff_of_true rfl h, fun _ => ⟨_, _, rfl, ?_, ?_, ?_, ?_, ?_⟩⟩
    · rw [hserial]
      exact wire_line _
    · rw [hpart]
      exact wire_line _
    · rw [hmanufacturer]
      rfl
    · rw [hbbSerial]
      exact wire_line _
    · rw [hbbPart]
      exact wire_line _
  · refine ⟨iff_of_false ?_ h, fun hok => absurd hok h⟩
    obtain ⟨n, hn, hnone⟩ := baseboard_refused h hbaseboard
    rw [machineContext, hn]
    dsimp only
    rw [hnone]
    exact Bool.false_ne_true

/-- An EEPROM with serial number "A1" and nothing else but its versions and checksums. -/
def sampleEeprom : Bytes :=
  [2, 0x41, 0x31] ++ List.replicate 123 0 ++ [0xcd, 0xbe] ++ (3 :: List.replicate 125 0) ++
    [0xfd, 0xff]

/-- The device tree of a board with a model, "B". -/
def sampleFdt : Fdt := ⟨fun name => if name = .model then some [0x42, 0] else none, none⟩

theorem published_iff_sample :
    ((machineContext (ftBoardSetup (nvmem sampleEeprom) sampleFdt)).baseboard.isSome ↔
        probe sampleEeprom = .ok ()) ∧
      (probe sampleEeprom = .ok () → ∃ system baseboard,
        machineContext (ftBoardSetup (nvmem sampleEeprom) sampleFdt) =
            ⟨some system, some baseboard⟩ ∧
          wire system.serialNumber = some (serialNumber.string sampleEeprom) ∧
          wire system.partNumber = some (partNumber.string sampleEeprom) ∧
          wire system.manufacturer = some sysinfoManufacturer ∧
          wire baseboard.serialNumber = some (pcaSerialNumber.string sampleEeprom) ∧
          wire baseboard.partNumber = some (pcaPartNumber.string sampleEeprom)) :=
  published_iff (by decide +kernel) ⟨0x42, [0], rfl⟩ rfl

end GxpVpd
