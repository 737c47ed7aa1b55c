/-
From the host's flash to the bus.

The segment byte of an I2C request is resolved by a map that `main` builds from
four sources: the firmware volumes in the flash, the platform definition bundle
in one of their files, the table in the bundle, and the muxes the kernel lists.
When the flash holds a platform definition table, the daemon makes exactly the
transfers the table routes, whatever else it is asked in between.

* `decompressPlatDef_packs`, `extractPlatDef_provisioned` — the table is found;
* `lookup_segmentBusMap_provisioned` — the map is the routing of the table;
* `made_eq` — the transfer of one packet;
* `transfers_routed` — the transfers of any sequence of packets.
-/
import Canopy.DaemonMain
import Canopy.I2cProxy
import Canopy.PlatDefBundle
import Canopy.SegmentRouting
import Canopy.ServiceIsolation
import Canopy.UefiImage

open Bytes OrderedMap UefiFv PlatDef Run

namespace Chif

/-! ### The table in the flash -/

/-- The bytes are a bundle with the table in it, plain or compressed. -/
inductive Packs (uncompress : UncompressCall → Option Bytes) (t : PlatDefTable) : Bytes → Prop
  | plain (info : Vector UInt8 16) (h : TableHeader) (records : Bytes)
      (hflag : h.data.flags &&& tableDataFlagZLib = 0) (htable : h.bytes ++ records = t.encode) :
      Packs uncompress t (bundle info h records)
  | zlib (info : Vector UInt8 16) (h : TableHeader) (compressed records trailing : Bytes)
      (hflag : h.data.flags &&& tableDataFlagZLib ≠ 0) (htable : h.bytes ++ records = t.encode)
      (hzlib : Inflates uncompress compressed records)
      (hsize : h.data.compressedSize = tableDataSize + compressed.length)
      (hroom : records.length ≤ decompSize h.data.totalSize) :
      Packs uncompress t (bundle info h (compressed ++ trailing))

theorem decompressPlatDef_packs {uncompress : UncompressCall → Option Bytes} {t : PlatDefTable}
    {raw : Bytes} (h : Packs uncompress t raw) (w : ℕ) :
    decompressPlatDef w uncompress raw = t.encode := by
  cases h with
  | plain info h records hflag htable => rw [decompressPlatDef_plain hflag, htable]
  | zlib info h compressed records trailing hflag htable hzlib hsize hroom =>
    rw [decompressPlatDef_zlib hzlib hflag hsize hroom, htable]

theorem Packs.ne_nil {uncompress : UncompressCall → Option Bytes} {t : PlatDefTable}
    {raw : Bytes} (h : Packs uncompress t raw) : raw ≠ [] := by
  have hsignature (info : Vector UInt8 16) (h : TableHeader) (records : Bytes) :
      bundle info h records ≠ [] := by
    rw [bundle, platdefBundleSignature]
    exact List.cons_ne_nil _ _
  cases h with
  | plain info h records _ _ => exact hsignature info h records
  | zlib info h compressed records trailing _ _ _ _ _ => exact hsignature info h _

private theorem encode_ne_nil (t : PlatDefTable) : t.encode ≠ [] := by
  rw [PlatDefTable.encode, PlatDefTable.headerRecord]
  exact List.cons_ne_nil _ _

/-- The first partition labelled `host-prime` holds a flash image whose APML file
packs the table. -/
structure Provisioned (b : Board) (t : PlatDefTable) where
  mtdPath : String
  found : findMtdByLabel "host-prime" b.mtd = some mtdPath
  img : FlashImage
  content : b.device mtdPath = some img.encode
  /-- no candidate is cut short in its section header -/
  whole : ∀ g ∈ img.candidates apmlFvGuid apmlFileGuid, ¬g.ShortGuidSection
  file : FfsFile
  first : (img.candidates apmlFvGuid apmlFileGuid).head? = some file
  packs : Packs b.uncompress t file.payload

variable {b : Board} {t : PlatDefTable}

/-- The image as the daemon reads it. -/
theorem Provisioned.apmlCall_eq (p : Provisioned b t) :
    b.apmlCall p.img.encode = p.img.call b.sz apmlFvGuid apmlFileGuid := by
  have hlt := (p.img.call b.sz apmlFvGuid apmlFileGuid).romSize_lt
  have hsize : b.sz.wrap p.img.encode.length = p.img.encode.length := b.sz.wrap_of_lt hlt
  rw [Board.apmlCall, FlashImage.call]
  congr 1

/-- The walk over the image returns the file. -/
theorem Provisioned.returns_file (p : Provisioned b t) :
    ∃ r, WhileLoop.Returns (b.apmlCall p.img.encode).step ExtractCall.start r ∧
      (b.apmlCall p.img.encode).result r = p.file.payload := by
  have hsmall : (b.apmlCall p.img.encode).Small := by
    rw [p.apmlCall_eq]
    exact ⟨rfl, p.img.size_lt⟩
  have hwhole : ∀ g ∈ p.img.blocks.flatMap (Block.candidates
      (b.apmlCall p.img.encode).fvGuid (b.apmlCall p.img.encode).fileGuid),
      ¬g.ShortGuidSection := p.whole
  have hfirst : (p.img.blocks.flatMap (Block.candidates (b.apmlCall p.img.encode).fvGuid
      (b.apmlCall p.img.encode).fileGuid)).head? = some p.file := p.first
  obtain ⟨r, hr, hresult⟩ := ExtractCall.walk_blocks hsmall p.img.blocks
    (show (b.apmlCall p.img.encode).rom = [] ++ _ from rfl) (Nat.dvd_zero _) hwhole
  rw [hfirst] at hresult
  exact ⟨r, hr, hresult⟩

/-- The image is not empty: on an empty one the walk finds nothing. -/
theorem Provisioned.length_ne_zero (p : Provisioned b t) : p.img.encode.length ≠ 0 := by
  intro hzero
  obtain ⟨r, hr, hresult⟩ := p.returns_file
  have hdone : (b.apmlCall p.img.encode).step ExtractCall.start = .inr none := by
    have hsize : (b.apmlCall p.img.encode).romSize = 0 := by
      show b.sz.wrap p.img.encode.length = 0
      rw [hzero]
      exact Nat.zero_mod _
    show (b.apmlCall p.img.encode).stepVolume true 0 = _
    rw [ExtractCall.stepVolume, hsize, if_neg (Nat.not_lt_zero _)]
  obtain rfl := (WhileLoop.returns_iff_of_done hdone).mp hr
  exact p.packs.ne_nil hresult.symm

/-- **The table is found.** -/
theorem extractPlatDef_provisioned (p : Provisioned b t) :
    ∃ fuel, b.extractPlatDef fuel = some t.encode := by
  obtain ⟨r, ⟨fuel, hr⟩, hresult⟩ := p.returns_file
  refine ⟨fuel, ?_⟩
  rw [Board.extractPlatDef, p.found]
  dsimp only
  rw [p.content]
  dsimp only
  rw [if_neg p.length_ne_zero, ExtractCall.extractFfsFile, hr, Option.map_some, hresult,
    Option.map_some, if_neg p.packs.ne_nil, decompressPlatDef_packs p.packs]

/-! ### The routing of the table -/

/-- The bus of a segment: the channel of the mux that its last CPLD entry names. -/
def routed (w : ℕ) (ahb : List MuxEntry) (t : PlatDefTable) (s : UInt8) : Option ℤ :=
  (t.lastCpld s).bind fun g =>
    if g.byte < cpldRegisterBase then none
    else muxTopology w ahb (g.byte - cpldRegisterBase) g.selectMask

/-- **The map is the routing of the table.** -/
theorem lookup_segmentBusMap_provisioned (p : Provisioned b t) :
    ∃ fuel m, b.segmentBusMap fuel = some m ∧
      m.lookup = routed (sizeBits b.sz) b.ahb t := by
  obtain ⟨fuel, hfuel⟩ := extractPlatDef_provisioned p
  refine ⟨fuel, buildSegmentBusMap (sizeBits b.sz) b.ahb (parseI2cSegments t.encode), ?_, ?_⟩
  · rw [Board.segmentBusMap, hfuel, Option.map_some, if_neg (encode_ne_nil t)]
  · funext s
    rw [lookup_buildSegmentBusMap, lookup_parseI2cSegments, Option.bind_map]
    rfl

/-! ### The transfer of a packet -/

/-- The transfer the SMIF service makes for a packet, if any. -/
def made (s : Services) (p : Bytes × ServicesEnv) : List I2cTransfer :=
  if addressee p = smifServiceId then (s.smif.handle p.2.smif p.1 freshBuf).i2c.toList else []

/-- The packet as a call of the I2C proxy. -/
def i2cCallOf (segmentToBus : UInt8 → Option ℤ) (p : Bytes × ServicesEnv) : I2cCall :=
  ⟨segmentToBus, p.2.smif.i2c, parseHeader p.1, payload p.1, freshBuf⟩

/-- A complete I2C request to the SMIF service, of lengths the proxy takes; and
the bus can be opened. -/
structure AsksTransfer (p : Bytes × ServicesEnv) : Prop where
  addressed : addressee p = smifServiceId
  command : (parseHeader p.1).command = smifCmdI2cTransaction
  complete : 17 ≤ (payload p.1).length
  asked : ¬((i2cCallOf (fun _ => none) p).writeLen = 0 ∧
    (i2cCallOf (fun _ => none) p).readLen = 0)
  writeLen_le : (i2cCallOf (fun _ => none) p).writeLen ≤ 32
  readLen_le : (i2cCallOf (fun _ => none) p).readLen ≤ 32
  opened : p.2.smif.i2c ≠ .openFails
  available : (i2cCallOf (fun _ => none) p).writeLen ≤ (payload p.1).length - 17

private theorem asksTransfer_iff (p : Bytes × ServicesEnv) :
    AsksTransfer p ↔ (addressee p = smifServiceId ∧
      (parseHeader p.1).command = smifCmdI2cTransaction) ∧ 17 ≤ (payload p.1).length ∧
      (¬((i2cCallOf (fun _ => none) p).writeLen = 0 ∧
        (i2cCallOf (fun _ => none) p).readLen = 0) ∧
      (i2cCallOf (fun _ => none) p).writeLen ≤ 32 ∧
      (i2cCallOf (fun _ => none) p).readLen ≤ 32) ∧ p.2.smif.i2c ≠ .openFails ∧
      (i2cCallOf (fun _ => none) p).writeLen ≤ (payload p.1).length - 17 := by
  constructor
  · rintro ⟨h1, h2, h3, h4, h5, h6, h7, h8⟩
    exact ⟨⟨h1, h2⟩, h3, ⟨h4, h5, h6⟩, h7, h8⟩
  · rintro ⟨⟨h1, h2⟩, h3, ⟨h4, h5, h6⟩, h7, h8⟩
    exact ⟨h1, h2, h3, h4, h5, h6, h7, h8⟩

instance : DecidablePred AsksTransfer := fun p => decidable_of_iff' _ (asksTransfer_iff p)

/-- Such a request gets as far as the bus if its segment has one. -/
theorem performs_iff (segmentToBus : UInt8 → Option ℤ) {p : Bytes × ServicesEnv}
    (haddressed : addressee p = smifServiceId)
    (hcommand : (parseHeader p.1).command = smifCmdI2cTransaction) (bus : ℤ) :
    (i2cCallOf segmentToBus p).Performs bus ↔
      AsksTransfer p ∧ segmentToBus (i2cCallOf segmentToBus p).segment = some bus := by
  have hroom : 57 ≤ freshBuf.length := by
    rw [freshBuf, List.length_replicate]
    decide
  constructor
  · rintro ⟨-, hcomplete, hasked, hwrite, hread, hmapped, hopened, havailable⟩
    refine ⟨⟨haddressed, hcommand, hcomplete, hasked, hwrite, hread, hopened, ?_⟩, hmapped⟩
    rcases Nat.eq_zero_or_pos (i2cCallOf segmentToBus p).writeLen with hzero | hpos
    · exact hzero.le.trans (Nat.zero_le _)
    · exact havailable hpos
  · rintro ⟨h, hmapped⟩
    exact ⟨hroom, h.complete, h.asked, h.writeLen_le, h.readLen_le, hmapped, h.opened,
      fun _ => h.available⟩

/-- An I2C request leads to the transfer the proxy makes. -/
theorem handle_i2c_of_command (svc : SmifService) (env : SmifEnv) {request response : Bytes}
    (hrequest : headerBytes ≤ request.length) (hresponse : headerBytes + 4 ≤ response.length)
    (hcommand : (parseHeader request).command = smifCmdI2cTransaction) :
    (svc.handle env request response).i2c =
      (handleI2cProxy svc.segmentToBus env.i2c (parseHeader request) (payload request)
        response).2 := by
  rw [SmifService.handle, if_neg (not_lt.mpr hrequest), if_neg (not_lt.mpr hresponse)]
  simp only [hcommand]
  rfl

/-- No other request leads to a transfer. -/
theorem handle_i2c_of_not (svc : SmifService) (env : SmifEnv) (request response : Bytes)
    (h : headerBytes ≤ request.length →
      (parseHeader request).command ≠ smifCmdI2cTransaction) :
    (svc.handle env request response).i2c = none := by
  let Q : SmifResult → Prop := fun r => r.i2c = none
  have other : ∀ answer service, Q ⟨answer, service, none⟩ := fun _ _ => rfl
  show Q (svc.handle env request response)
  rw [SmifService.handle]
  refine iteInduction (fun _ => other _ _) fun hrequest => ?_
  refine iteInduction (fun _ => other _ _) fun _ => ?_
  refine iteInduction (fun _ => other _ _) fun _ => ?_
  refine iteInduction (fun _ => other _ _) fun _ => ?_
  refine iteInduction (fun _ => other _ _) fun _ => ?_
  refine iteInduction (fun _ => other _ _) fun _ => ?_
  refine iteInduction (fun _ => other _ _) fun _ => ?_
  refine iteInduction (fun _ => other _ _) fun _ => ?_
  refine iteInduction (fun hi2c => absurd hi2c (h (not_lt.mp hrequest))) fun _ => ?_
  exact iteInduction (fun _ => other _ _) fun _ => other _ _

/-- The transfer a packet is to lead to. -/
def due (segmentToBus : UInt8 → Option ℤ) (p : Bytes × ServicesEnv) : List I2cTransfer :=
  if AsksTransfer p then
    ((segmentToBus (i2cCallOf segmentToBus p).segment).map fun bus =>
      ⟨bus, (i2cCallOf segmentToBus p).msgs⟩).toList
  else []

private theorem length_of_payload {request : Bytes} {n : ℕ} (hn : 0 < n)
    (h : n ≤ (payload request).length) : headerBytes ≤ request.length := by
  rw [payload] at h
  split at h
  · exact absurd h (not_le.mpr hn)
  · omega

/-- **The transfer of a packet.** -/
theorem made_eq (s : Services) (p : Bytes × ServicesEnv) :
    made s p = due s.smif.segmentToBus p := by
  have hroom : headerBytes + 4 ≤ freshBuf.length := by
    rw [freshBuf, List.length_replicate]
    decide
  rw [made, due]
  by_cases haddressed : addressee p = smifServiceId
  · rw [if_pos haddressed]
    by_cases hi2c : headerBytes ≤ p.1.length ∧
        (parseHeader p.1).command = smifCmdI2cTransaction
    · rw [handle_i2c_of_command s.smif p.2.smif hi2c.1 hroom hi2c.2]
      -- the proxy makes a transfer exactly when the call gets as far as the bus
      have htransfer (t : I2cTransfer) :
          (i2cCallOf s.smif.segmentToBus p).result.2 = some t ↔ _ := I2cCall.transfer_iff
      simp only [performs_iff s.smif.segmentToBus haddressed hi2c.2] at htransfer
      have hresult : (i2cCallOf s.smif.segmentToBus p).result.2 =
          if AsksTransfer p then
            (s.smif.segmentToBus (i2cCallOf s.smif.segmentToBus p).segment).map fun bus =>
              ⟨bus, (i2cCallOf s.smif.segmentToBus p).msgs⟩
          else none := by
        refine Option.ext fun t => ?_
        rw [htransfer]
        split
        · next hasks =>
          rw [Option.map_eq_some_iff]
          constructor
          · rintro ⟨bus, ⟨-, hbus⟩, rfl⟩
            exact ⟨bus, hbus, rfl⟩
          · rintro ⟨bus, hbus, rfl⟩
            exact ⟨bus, ⟨hasks, hbus⟩, rfl⟩
        · next hasks =>
          constructor
          · rintro ⟨bus, ⟨hyes, -⟩, -⟩
            exact absurd hyes hasks
          · intro h
            cases h
      have hsame : (handleI2cProxy s.smif.segmentToBus p.2.smif.i2c (parseHeader p.1)
          (payload p.1) freshBuf).2 = (i2cCallOf s.smif.segmentToBus p).result.2 := rfl
      rw [hsame, hresult]
      split
      · rfl
      · rfl
    · rw [handle_i2c_of_not s.smif p.2.smif p.1 freshBuf fun hlen hcommand =>
        hi2c ⟨hlen, hcommand⟩, if_neg]
      · rfl
      · exact fun h => hi2c ⟨length_of_payload (by decide) h.complete, h.command⟩
  · rw [if_neg haddressed, if_neg fun h => haddressed h.addressed]

/-! ### Any sequence of packets -/

/-- The map is never changed. -/
theorem segmentToBus_served (s : Services) (p : Bytes × ServicesEnv) :
    (served s p).smif.segmentToBus = s.smif.segmentToBus := by
  by_cases hsmif : addressee p = smifServiceId
  · have hfind : registered mainHandlers (addressee p) = some smifHandler := by
      rw [registered_main, hsmif]
      rfl
    rw [(reply_of_registered hfind s).2]
    show (s.smif.handle p.2.smif p.1 freshBuf).service.segmentToBus = _
    rcases s.smif.handle_service p.2.smif p.1 freshBuf with hsame | hset
    · rw [hsame]
    · rw [hset]
  · rw [(sameFor_served hsmif s).smif rfl]

/-- The transfers the daemon makes for a sequence of packets. -/
def transfers (s : Services) (ps : List (Bytes × ServicesEnv)) : List I2cTransfer :=
  log served made s ps

private theorem transfers_eq (ps : List (Bytes × ServicesEnv)) : ∀ s : Services,
    transfers s ps = ps.flatMap (due s.smif.segmentToBus) := by
  induction ps with
  | nil =>
    intro s
    rfl
  | cons p ps ih =>
    intro s
    rw [transfers, log_cons, made_eq, List.flatMap_cons]
    have hrest := ih (served s p)
    rw [segmentToBus_served] at hrest
    rw [← hrest, transfers]

/-- **From the flash to the bus.**  On a machine whose flash holds a platform
definition table, the daemon starts, and makes for any packets, in their order,
exactly the transfers their requests ask for, on the buses the table routes their
segments to. -/
theorem transfers_routed (p : Provisioned b t) (opened : Bool)
    (evFile temp smbios2 : Option Bytes) :
    ∃ fuel s, b.services fuel opened evFile temp smbios2 = some s ∧
      ∀ ps, transfers s ps = ps.flatMap (due (routed (sizeBits b.sz) b.ahb t)) := by
  obtain ⟨fuel, m, hmap, hlookup⟩ := lookup_segmentBusMap_provisioned p
  refine ⟨fuel, _, by rw [Board.services, hmap, Option.map_some], fun ps => ?_⟩
  rw [transfers_eq]
  show ps.flatMap (due m.lookup) = _
  rw [hlookup]

/-! ### A machine with one routed segment -/

/-- Segment 5 hangs off channel 2 of mux 0. -/
def oneSegmentTable : PlatDefTable where
  type := 1
  not_engine := by decide
  not_end := by decide
  header := .replicate 30 0
  body := .replicate 80 0
  records := [.engine
    { header := .replicate 30 0
      fixedHead := .replicate 38 0
      fixedTail := .replicate 9 0
      segments := [⟨.replicate 5 0, 5, .replicate 10 0, i2cMuxTypeCpld, 0x84, 0, 2,
        .replicate 12 0⟩]
      trailer := []
      size_le := by decide }]
  endRest := []

def oneSegmentHeader : TableHeader where
  bytes := oneSegmentTable.headerRecord
  length_eq := by decide +kernel
  size_eq := by decide +kernel

/-- What follows the table header. -/
def oneSegmentRecords : Bytes := oneSegmentTable.encode.drop tableDataSize

/-- A FREEFORM file with a RAW section that holds the plain bundle. -/
def apmlFile : FfsFile where
  header := apmlFileGuid.raw ++ [0, 0, 2, 0] ++ ofLE 3 285 ++ [0]
  data := [5, 1, 0, 0x19] ++ bundle (.replicate 16 0) oneSegmentHeader oneSegmentRecords
  pad := [0xFF, 0xFF, 0xFF]
  header_length := by decide +kernel
  size_eq := by decide +kernel
  name_ne := by decide +kernel
  pad_lt := by decide
  aligned := ⟨33, by decide +kernel⟩

/-- A volume with that file. -/
def apmlVolume : Ffs2Volume where
  head := List.replicate 16 0 ++ ffs2Guid.raw ++ ofLE 8 392 ++ ofLE 4 efiFvhSignature ++
    ofLE 8 0 ++ ofLE 2 56 ++ [0, 0] ++ apmlFvGuid.raw ++ ofLE 4 24 ++ ofLE 4 0
  files := [apmlFile]
  tail := []
  head_ge := by decide +kernel
  signature := by decide +kernel
  fileSystem := by decide +kernel
  ext_ne := by decide +kernel
  ext_le := by decide +kernel
  head_length := by decide +kernel
  fvLength_eq := by decide +kernel

private theorem apmlVolume_length : apmlVolume.encode.length = 392 := by decide +kernel

def apmlBlock : Block :=
  .ffs2 apmlVolume (List.replicate (0x10000 - 392) 0xFF) (length_rest_lt (by decide) _)
    (by rw [apmlVolume_length, List.length_replicate])

private theorem apmlBlock_length : apmlBlock.encode.length = 0x10000 := by
  rw [apmlBlock, Block.encode, List.length_append, apmlVolume_length, List.length_replicate]

/-- An image of one block. -/
def apmlImage : FlashImage where
  blocks := [apmlBlock]
  size_lt := by
    rw [List.flatMap_cons, List.flatMap_nil, List.append_nil, apmlBlock_length]
    decide

private theorem apmlImage_candidates :
    apmlImage.candidates apmlFvGuid apmlFileGuid = [apmlFile] := by
  have hname : apmlVolume.extHdr.fvName = apmlFvGuid := by decide +kernel
  have hfiles : apmlVolume.files.filter (FfsFile.Matches apmlFileGuid) = [apmlFile] :=
    List.filter_cons_of_pos (by decide +kernel)
  rw [FlashImage.candidates, apmlImage, List.flatMap_cons, List.flatMap_nil, List.append_nil,
    apmlBlock, Block.candidates, if_pos hname, hfiles]

/-- The kernel has channel 2 of mux 0 as bus 7. -/
def oneSegmentBoard : Board where
  sz := .bits32
  mtd := [⟨"mtd0ro", some "host-prime\n"⟩, ⟨"mtd0", some "host-prime\n"⟩]
  device path := if path = "/dev/mtd0" then some apmlImage.encode else none
  uncompress _ := none
  ahb := [⟨"ahb@80000000:i2cmux@0", [⟨"channel-2", some "i2c-7"⟩]⟩]

def oneSegmentProvisioned : Provisioned oneSegmentBoard oneSegmentTable where
  mtdPath := "/dev/mtd0"
  found := by decide +kernel
  img := apmlImage
  content := by
    show (if "/dev/mtd0" = "/dev/mtd0" then some apmlImage.encode else none) = _
    rw [if_pos rfl]
  whole := by
    rw [apmlImage_candidates]
    intro g hg hguid
    obtain rfl := List.mem_singleton.mp hg
    exact absurd hguid.2.1 (by decide +kernel)
  file := apmlFile
  first := by
    rw [apmlImage_candidates]
    rfl
  packs := by
    have hpayload : apmlFile.payload =
        bundle (.replicate 16 0) oneSegmentHeader oneSegmentRecords := by decide +kernel
    rw [hpayload]
    exact .plain _ _ _ (by decide +kernel) (by decide +kernel)

/-- Requests for segment 5 go to bus 7. -/
theorem transfers_routed_oneSegment :
    routed 32 oneSegmentBoard.ahb oneSegmentTable 5 = some 7 ∧
      ∃ fuel s, oneSegmentBoard.services fuel true none none none = some s ∧
        ∀ ps, transfers s ps =
          ps.flatMap (due (routed 32 oneSegmentBoard.ahb oneSegmentTable)) :=
  ⟨by decide +kernel, transfers_routed oneSegmentProvisioned true none none none⟩

end Chif
