import SlowBus.Boot.CfgFile

/-!
# Images of configuration files

The host builds the rows of the configuration store, each with its checksum, and the node scans
them. What the host writes is what the node loads.
-/

namespace SlowBus.Commission.CfgImage

open Bus (Byte busCrc8Update crc8Shift)
open Boot (CfgRow CfgEntry cfgEntry entryCrc entryValid cfgBest cfgLoad FirstHighest wordAt)

/-- `le32`: the bytes of a number, the low one first. -/
def le32 (n : BitVec 32) : List Byte :=
  [(n &&& 0xff).setWidth 8, ((n >>> 8) &&& 0xff).setWidth 8, ((n >>> 16) &&& 0xff).setWidth 8,
    ((n >>> 24) &&& 0xff).setWidth 8]

/-- One round of the loop of `crc8_autosar`, on numbers of 32 bits. -/
def crcShift (crc : BitVec 32) : BitVec 32 :=
  if crc &&& 0x80 ≠ 0 then ((crc <<< 1) ^^^ 0x2F) &&& 0xFF else (crc <<< 1) &&& 0xFF

def crcByte (crc : BitVec 32) (b : Byte) : BitVec 32 :=
  Nat.iterate crcShift 8 (crc ^^^ b.setWidth 32)

/-- `crc8_autosar` -/
def crc8Autosar (s : List Byte) : Byte :=
  ((s.foldl crcByte 0xFF ^^^ 0xFF) &&& 0xFF).setWidth 8

/-- `build_entry`: nothing where its assertions fail. -/
def buildEntry (name : List Byte) (seq : BitVec 32) (data : List Byte) : Option (List Byte) :=
  let n4 := (name ++ [0x20, 0x20, 0x20, 0x20]).take 4
  if data.length ≤ 240 then
    let len : Byte := .ofNat 8 data.length
    let crc := crc8Autosar (n4 ++ [len] ++ data)
    let row := le32 0x10C0FFEE ++ le32 seq ++ n4 ++ [len, crc, 0, 0] ++ data ++
      List.replicate (240 - data.length) 0
    if row.length = 256 then some row else none
  else none

/-- A file of the image. -/
structure ImageEntry where
  name : List Byte
  seq : BitVec 32
  data : List Byte
  deriving DecidableEq, Repr

/-- Its name has four characters, and it fits a row. -/
structure ImageEntry.Fits (e : ImageEntry) : Prop where
  name : e.name.length = 4
  first : e.name.head? ≠ some 0xFF
  data : e.data.length ≤ 240

/-- The entries stand in the first rows; no other row has a valid entry. -/
def Written (region : Fin 256 → CfgRow) (entries : List ImageEntry) : Prop :=
  ∀ r : Fin 256, match entries[r.val]? with
    | some e => buildEntry e.name e.seq e.data = some (region r).toList
    | none => entryValid (cfgEntry (region r).toList) = false

/-! ## The checksums -/

/-- One round on 32 bits is one on 8. -/
theorem crcShift_setWidth (c : Byte) : crcShift (c.setWidth 32) = (crc8Shift c).setWidth 32 := by
  revert c
  decide +kernel

theorem crcByte_setWidth (c b : Byte) :
    crcByte (c.setWidth 32) b = (busCrc8Update c b).setWidth 32 := by
  have hiterate (n : Nat) (c : Byte) :
      Nat.iterate crcShift n (c.setWidth 32) = (Nat.iterate crc8Shift n c).setWidth 32 := by
    induction n generalizing c with
    | zero => rfl
    | succ n ih =>
        show Nat.iterate crcShift n (crcShift (c.setWidth 32)) = _
        rw [crcShift_setWidth]
        exact ih (crc8Shift c)
  rw [crcByte, busCrc8Update, ← hiterate, BitVec.setWidth_xor]

/-- Both checksums are one. -/
theorem crc8Autosar_eq (s : List Byte) : crc8Autosar s = s.foldl busCrc8Update 0xFF ^^^ 0xFF := by
  have hfold (c : Byte) :
      s.foldl crcByte (c.setWidth 32) = (s.foldl busCrc8Update c).setWidth 32 := by
    induction s generalizing c with
    | nil => rfl
    | cons b s ih => rw [List.foldl_cons, List.foldl_cons, crcByte_setWidth, ih]
  have hlast : ∀ c : Byte,
      ((c.setWidth 32 ^^^ 0xFF) &&& 0xFF : BitVec 32).setWidth 8 = c ^^^ 0xFF := by
    decide +kernel
  rw [crc8Autosar, ← hlast, ← hfold]
  rfl

/-- The node's checksum reads `len` bytes, whatever stands behind them. -/
theorem crc8Autosar_eq_entryCrc (name data rest : List Byte) (hdata : data.length < 256) :
    crc8Autosar (name ++ [.ofNat 8 data.length] ++ data) =
      entryCrc name (.ofNat 8 data.length) (data ++ rest) := by
  have hlen : (BitVec.ofNat 8 data.length).toNat = data.length := Nat.mod_eq_of_lt hdata
  rw [crc8Autosar_eq, List.foldl_append, List.foldl_append, entryCrc, hlen, List.take_left]
  rfl

/-! ## A row -/

section Rows

variable {e : ImageEntry} {region : Fin 256 → CfgRow} {entries : List ImageEntry}

/-- What the node reads in the row of an entry. -/
def ImageEntry.entry (e : ImageEntry) : CfgEntry where
  magic := Boot.cfgStoreMagic
  seq := e.seq
  name := e.name
  len := .ofNat 8 e.data.length
  crc := crc8Autosar (e.name ++ [.ofNat 8 e.data.length] ++ e.data)
  data := e.data ++ List.replicate (240 - e.data.length) 0

theorem wordAt_le32 (n : BitVec 32) (rest : List Byte) : wordAt (le32 n ++ rest) 0 = n := by
  show ((n >>> 24) &&& 0xff).setWidth 8 ++ ((n >>> 16) &&& 0xff).setWidth 8 ++
    ((n >>> 8) &&& 0xff).setWidth 8 ++ (n &&& 0xff).setWidth 8 = n
  refine BitVec.eq_of_getLsbD_eq fun i hi => ?_
  have hbyte : ∀ k < 8, (0xff#32).getLsbD k = true := by decide
  simp only [BitVec.getLsbD_append, BitVec.getLsbD_setWidth, BitVec.getLsbD_and,
    BitVec.getLsbD_ushiftRight]
  -- one case for each byte
  rcases Nat.lt_or_ge i 8 with h8 | h8
  · simp [h8, hbyte i h8]
  rcases Nat.lt_or_ge i 16 with h16 | h16
  · have h : i - 8 < 8 := by omega
    simp [Nat.not_lt.mpr h8, h, hbyte _ h, Nat.add_sub_cancel' h8]
  rcases Nat.lt_or_ge i 24 with h24 | h24
  · have h : i - 16 < 8 := by omega
    have hnot : ¬i - 8 < 8 := by omega
    simp [Nat.not_lt.mpr h8, hnot, Nat.sub_sub, h, hbyte _ h, Nat.add_sub_cancel' h16]
  · have h : i - 24 < 8 := by omega
    have hnot : ¬i - 8 < 8 := by omega
    have hnot' : ¬i - 16 < 8 := by omega
    simp [Nat.not_lt.mpr h8, hnot, hnot', Nat.sub_sub, h, hbyte _ h, Nat.add_sub_cancel' h24]

theorem ImageEntry.Fits.chars (h : e.Fits) : ∃ a b c d, e.name = [a, b, c, d] := by
  obtain ⟨a, b, c, d, hname⟩ : ∃ a b c d, e.name = [a, b, c, d] := by
    match hname : e.name, h.name with
    | [a, b, c, d], _ => exact ⟨a, b, c, d, rfl⟩
  exact ⟨a, b, c, d, hname⟩

/-- The fields stand where the node looks for them. -/
theorem cfgEntry_row (h : e.Fits) {row : List Byte}
    (hrow : buildEntry e.name e.seq e.data = some row) : cfgEntry row = e.entry := by
  obtain ⟨a, b, c, d, hname⟩ := h.chars
  rw [buildEntry, if_pos h.data] at hrow
  dsimp only at hrow
  split at hrow
  next =>
    rw [← Option.some.inj hrow, cfgEntry, ImageEntry.entry, hname]
    refine congr (congr (congr (congr (congr (congrArg CfgEntry.mk ?_) ?_) ?_) ?_) ?_) ?_
    · exact wordAt_le32 0x10C0FFEE []
    · exact wordAt_le32 e.seq []
    all_goals rfl
  next => cases hrow

theorem ImageEntry.Fits.valid (h : e.Fits) : entryValid e.entry = true := by
  have hlen : (BitVec.ofNat 8 e.data.length).toNat = e.data.length :=
    Nat.mod_eq_of_lt (Nat.lt_of_le_of_lt h.data (by decide))
  have hmax : BitVec.ofNat 8 e.data.length ≤ Boot.cfgEntryDataMax :=
    BitVec.le_def.mpr (hlen.trans_le h.data)
  have hcrc := crc8Autosar_eq_entryCrc e.name e.data (List.replicate (240 - e.data.length) 0)
    (Nat.lt_of_le_of_lt h.data (by decide))
  rw [entryValid, Bool.and_eq_true_iff, Bool.and_eq_true_iff, Bool.and_eq_true_iff]
  exact ⟨⟨⟨beq_self_eq_true _, bne_iff_ne.mpr h.first⟩, decide_eq_true hmax⟩,
    beq_iff_eq.mpr hcrc.symm⟩

/-- The bytes that the node copies. -/
theorem ImageEntry.Fits.copied (h : e.Fits) :
    e.entry.len.toNat = e.data.length ∧ e.entry.data.take e.entry.len.toNat = e.data := by
  have hlen : e.entry.len.toNat = e.data.length :=
    Nat.mod_eq_of_lt (Nat.lt_of_le_of_lt h.data (by decide))
  refine ⟨hlen, ?_⟩
  rw [hlen]
  exact List.take_left

/-! ## The store -/

/-- The valid entries are those that were written. -/
theorem filter_rows (hfits : ∀ e ∈ entries, e.Fits) (hcount : entries.length ≤ 256)
    (hwritten : Written region entries) (name : List Byte) :
    ((List.finRange 256).map fun r => cfgEntry (region r).toList).filter
        (fun e => entryValid e && e.name == name) =
      (entries.filter fun e => e.name == name).map ImageEntry.entry := by
  have hsplit : ((List.finRange 256).map fun r => cfgEntry (region r).toList).take entries.length =
      entries.map ImageEntry.entry := by
    refine List.ext_getElem ?_ fun i hi hi' => ?_
    · rw [List.length_take, List.length_map, List.length_finRange, List.length_map]
      exact Nat.min_eq_left hcount
    · rw [List.length_map] at hi'
      have hrow := hwritten ⟨i, hi'.trans_le hcount⟩
      rw [List.getElem?_eq_getElem hi'] at hrow
      rw [List.getElem_take, List.getElem_map, List.getElem_map, List.getElem_finRange]
      exact cfgEntry_row (hfits _ (List.getElem_mem hi')) hrow
  have hrest : ∀ e ∈ ((List.finRange 256).map fun r => cfgEntry (region r).toList).drop
      entries.length, ¬(entryValid e && e.name == name) = true := by
    intro e he
    obtain ⟨i, hi, rfl⟩ := List.mem_iff_getElem.mp he
    rw [List.length_drop, List.length_map, List.length_finRange] at hi
    have hrow := hwritten ⟨entries.length + i, by omega⟩
    rw [List.getElem?_eq_none (Nat.le_add_right _ _)] at hrow
    rw [List.getElem_drop, List.getElem_map, List.getElem_finRange]
    intro hboth
    have hvalid := (Bool.and_eq_true_iff.mp hboth).1
    exact absurd (hrow.symm.trans hvalid) Bool.false_ne_true
  rw [← List.take_append_drop entries.length
    ((List.finRange 256).map fun r => cfgEntry (region r).toList), List.filter_append, hsplit,
    List.filter_eq_nil_iff.mpr hrest, List.append_nil, List.filter_map]
  congr 1
  refine List.filter_congr fun e he => ?_
  show (entryValid e.entry && e.name == name) = (e.name == name)
  rw [(hfits e he).valid, Bool.true_and]

end Rows

/-- The node loads the first entry with the highest number of a name, and nothing if there is none;
the checksums of the host and of the node agree. -/
theorem cfgLoad_written (entries : List ImageEntry) (region : Fin 256 → CfgRow)
    (hfits : ∀ e ∈ entries, e.Fits) (hcount : entries.length ≤ 256)
    (hwritten : Written region entries) (name : List Byte) (cap : Nat) :
    (∀ e, FirstHighest (fun e => e.seq.toNat) (entries.filter fun e => e.name == name) e →
      cfgLoad region name cap = if cap < e.data.length then .error (-2) else .ok e.data) ∧
    ((∃ e ∈ entries, e.name = name) → ∃ e,
      FirstHighest (fun e => e.seq.toNat) (entries.filter fun e => e.name == name) e) ∧
    (cfgLoad region name cap = .error (-1) ↔ ∀ e ∈ entries, e.name ≠ name) ∧
    ∀ n data rest : List Byte, n.length = 4 → data.length < 256 →
      crc8Autosar (n ++ [.ofNat 8 data.length] ++ data) =
        entryCrc n (.ofNat 8 data.length) (data ++ rest) := by
  have hfound (e : ImageEntry)
      (he : FirstHighest (fun e => e.seq.toNat) (entries.filter fun e => e.name == name) e) :
      cfgLoad region name cap = if cap < e.data.length then .error (-2) else .ok e.data := by
    obtain ⟨before, after, hsplit, hbefore, hafter⟩ := he
    have hmem : e ∈ entries := List.mem_of_mem_filter
      (hsplit ▸ List.mem_append_right before List.mem_cons_self)
    obtain ⟨hlen, hdata⟩ := (hfits e hmem).copied
    -- the rows of the image that carry the name are the entries, in order
    have hfirst : FirstHighest (fun e : CfgEntry => e.seq.toNat)
        ((entries.filter fun e => e.name == name).map ImageEntry.entry) e.entry := by
      refine ⟨before.map ImageEntry.entry, after.map ImageEntry.entry, ?_, ?_, ?_⟩
      · rw [hsplit, List.map_append, List.map_cons]
      · exact List.forall_mem_map.mpr hbefore
      · exact List.forall_mem_map.mpr hafter
    have hbest := hfirst.argmax
    rw [← filter_rows hfits hcount hwritten, ← Boot.cfgBest_eq_argmax] at hbest
    rw [cfgLoad, hbest]
    dsimp only
    rw [hdata, hlen]
  have hexists (h : ∃ e ∈ entries, e.name = name) : ∃ e,
      FirstHighest (fun e => e.seq.toNat) (entries.filter fun e => e.name == name) e := by
    obtain ⟨e, he, hname⟩ := h
    exact Boot.exists_firstHighest _
      (List.ne_nil_of_mem (List.mem_filter.mpr ⟨he, beq_iff_eq.mpr hname⟩))
  refine ⟨hfound, hexists, ⟨fun habsent e he hname => ?_, fun hnone => ?_⟩,
    fun n data rest _ hdata => crc8Autosar_eq_entryCrc n data rest hdata⟩
  · obtain ⟨best, hbest⟩ := hexists ⟨e, he, hname⟩
    rw [hfound best hbest] at habsent
    split at habsent
    · exact absurd (Except.error.inj habsent) (by decide)
    · cases habsent
  · have hempty : (entries.filter fun e => e.name == name) = [] :=
      List.filter_eq_nil_iff.mpr fun e he => beq_iff_eq.not.mpr (hnone e he)
    rw [cfgLoad, Boot.cfgBest_eq_argmax, filter_rows hfits hcount hwritten, hempty]
    rfl

/-- An identity file. -/
def identityFile (seq : BitVec 32) (data : List Byte) : ImageEntry :=
  { name := [0x69, 0x64, 0x6E, 0x74], seq, data }

/-- It is written twice. -/
def rewrittenIdentity : List ImageEntry := [identityFile 5 [1, 2, 3], identityFile 6 [4, 5]]

def rowOf (e : ImageEntry) : CfgRow :=
  Vector.ofFn fun i => ((buildEntry e.name e.seq e.data).getD []).getD i.val 0

/-- The third row has a higher number and a damaged byte, the others are erased. -/
def identityRegion (r : Fin 256) : CfgRow :=
  match r.val with
  | 0 => rowOf (identityFile 5 [1, 2, 3])
  | 1 => rowOf (identityFile 6 [4, 5])
  | 2 => (rowOf (identityFile 7 [9])).set 16 8
  | _ => Vector.replicate 256 0xFF

theorem cfgLoad_written_identity : cfgLoad identityRegion [0x69, 0x64, 0x6E, 0x74] 240 =
    .ok [4, 5] := by
  have hfits : ∀ e ∈ rewrittenIdentity, e.Fits := by
    intro e he
    rcases List.mem_pair.mp he with rfl | rfl
    · exact ⟨rfl, by decide, by decide⟩
    · exact ⟨rfl, by decide, by decide⟩
  have hwritten : Written identityRegion rewrittenIdentity := by
    rintro ⟨n, hn⟩
    match n with
    | 0 =>
        show buildEntry _ 5 [1, 2, 3] = some (identityRegion 0).toList
        decide +kernel
    | 1 =>
        show buildEntry _ 6 [4, 5] = some (identityRegion 1).toList
        decide +kernel
    | 2 =>
        show entryValid (cfgEntry (identityRegion 2).toList) = false
        decide +kernel
    | n + 3 =>
        show entryValid (cfgEntry (Vector.replicate 256 0xFF).toList) = false
        decide +kernel
  refine (cfgLoad_written rewrittenIdentity identityRegion hfits (by decide) hwritten
    [0x69, 0x64, 0x6E, 0x74] 240).1 (identityFile 6 [4, 5])
    ⟨[identityFile 5 [1, 2, 3]], [], by decide, ?_, ?_⟩
  · intro e he
    rw [List.mem_singleton.mp he]
    decide
  · exact fun e he => absurd he List.not_mem_nil

end SlowBus.Commission.CfgImage
