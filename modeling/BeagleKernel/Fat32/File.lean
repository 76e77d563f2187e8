import BeagleKernel.Fat32.Dir

/-!
# Opening and reading files

`fat32_open`, `fat32_read`, `fat32_seek`, `fat32_tell` and `fat32_eof`. The caller's buffer is the
memory from `buffer` on. Both loops of `fat32_read` read at least one byte in each round, so the
bytes that remain bound them.
-/

namespace BeagleKernel.Fat32

/-! ## Opening -/

/-- The loop of `fat32_open` over the directories of the path, `left` of them to go: the entry of
the last one and its cluster. -/
def openDirs (fuel : ℕ) (fs : Fat32Fs) (path : Fat32Path) :
    (left i : ℕ) → (currentDir : Fat32DirEntry) → (parent : UInt32) →
      Prog (Except Int32 (Fat32DirEntry × UInt32))
  | 0, _, currentDir, parent => return .ok (currentDir, parent)
  | left + 1, i, currentDir, _ => do
    let name ← path.component i
    let (r, dir) ← readDirEntry fuel fs currentDir name
    if r ≠ 0 then return .error fat32ErrorNoPath
    else openDirs fuel fs path left (i + 1) dir dir.startCluster

/-- `current_dir` before its first use: only `is_initialized` is set. -/
def noDir : Fat32DirEntry := ⟨0, 0, 0, false⟩

/-- `fat32_open`, with `prior` in the memory its path structure takes. -/
def fat32Open (fuel : ℕ) (fs : Fat32Fs) (path : CString) (file : Fat32File) (prior : ℕ → UInt8) :
    Prog (Int32 × Fat32File) :=
  if !fs.isInitialized then return (fat32ErrorBadParameter, file)
  else do
    let pathStruct := parseFat32Path path prior
    -- without components the bound is 0xFFFFFFFF
    let dirs := (UInt32.ofNat pathStruct.numComponents - 1).toNat
    match ← openDirs fuel fs pathStruct dirs 0 noDir fs.rootCluster with
    | .error code => return (code, file)
    | .ok (currentDir, parentCluster) =>
      if pathStruct.numComponents = 0 then Traced.fault .outOfBounds
      else
        let targetName ← pathStruct.component (pathStruct.numComponents - 1)
        let (r, target) ← readDirEntry fuel fs currentDir targetName
        if r ≠ 0 then return (fat32ErrorNoFile, file)
        else if target.attributes &&& fat32AttrDirectory = fat32AttrDirectory then
          return (fat32ErrorIsDir, file)
        else
          return (fat32Success,
            { file with
              fs := fs
              startCluster := target.startCluster
              currentCluster := target.startCluster
              fileSize := target.fileSize
              parentDirCluster := parentCluster
              fileOffset := 0
              formattedName := formatNameToFat32 targetName })

/-! ## Reading -/

/-- The state of a `fat32_read`; `buf_ptr` is `bytes_read` past the start of the buffer. -/
structure ReadState where
  file : Fat32File
  buffer : ℕ → UInt8
  bytesRead : UInt32
  remaining : UInt32

/-- `buffer` with `n` bytes of `src` from `offset` on written at `p`. -/
def blit (buffer : ℕ → UInt8) (p : ℕ) (src : Sector) (offset n : ℕ) : ℕ → UInt8 :=
  fun j => if p ≤ j ∧ j < p + n then src.byte (offset + (j - p)) else buffer j

/-- The copy of `n` bytes of a sector from `offset` on, and the counts after it. -/
def copyBytes (src : Sector) (offset n : UInt32) (st : ReadState) : Prog ReadState :=
  if offset.toNat + n.toNat ≤ fat32SectorSize then
    return { file := { st.file with fileOffset := st.file.fileOffset + n }
             buffer := blit st.buffer st.bytesRead.toNat src offset.toNat n.toNat
             bytesRead := st.bytesRead + n
             remaining := st.remaining - n }
  else Traced.fault .outOfBounds

/-- The inner loop of `fat32_read`, over the sectors of a cluster: `bytes_to_read` when it ends. -/
def readSectors (fs : Fat32Fs) (pos : ℕ) (cluster clusterStart : UInt32) :
    (fuel : ℕ) → (sector offset toRead : UInt32) → ReadState →
      Prog (Flow (UInt32 × ReadState) (Int32 × ReadState))
  | 0, _, _, _, _ => Traced.fault .fuel
  | fuel + 1, sector, offset, toRead, st =>
    if toRead = 0 then return .next (toRead, st)
    else do
      match ← fs.readSector (.data pos cluster sector) with
      | none =>
        return .ret (if st.bytesRead > 0 then st.bytesRead.toInt32 else fat32ErrorIo, st)
      | some src =>
        let bytesInSector := fs.bytesPerSector.toUInt32 - offset
        let bytesFromSector := if toRead < bytesInSector then toRead else bytesInSector
        let st ← copyBytes src offset bytesFromSector st
        if sector + 1 - clusterStart ≥ fs.sectorsPerCluster.toUInt32 then
          return .next (toRead - bytesFromSector, st)
        else
          readSectors fs pos cluster clusterStart fuel (sector + 1) 0 (toRead - bytesFromSector) st

/-- The end of a round of `fat32_read`, after the sectors of its target cluster. -/
def finishCluster (fs : Fat32Fs) (clusterIndex targetCluster : UInt32) :
    Flow (UInt32 × ReadState) (Int32 × ReadState) → Prog (Flow ReadState (Int32 × ReadState))
  | .ret r => return .ret r
  | .next (left, st) =>
    let st := { st with file := { st.file with currentCluster := targetCluster } }
    if left > 0 then do
      let nextCluster ← fat32GetNextCluster fs clusterIndex.toNat targetCluster
      if nextCluster ≥ fat32LastMarker ∨ nextCluster = fat32EocMarker then
        return .ret (st.bytesRead.toInt32, st)
      else return .next st
    else return .next st

/-- The part of a round of `fat32_read` that reads from its target cluster. -/
def readCluster (fs : Fat32Fs) (clusterSize clusterOffset clusterIndex targetCluster : UInt32)
    (st : ReadState) : Prog (Flow ReadState (Int32 × ReadState)) :=
  let bytesInCluster := clusterSize - clusterOffset
  let bytesToRead := if st.remaining < bytesInCluster then st.remaining else bytesInCluster
  let clusterResult := clusterToSector fs targetCluster
  if clusterResult < 0 then return .ret (clusterResult, st)
  else do
    let clusterStart := clusterResult.toUInt32
    let sectorOffset ← umod clusterOffset fs.bytesPerSector.toUInt32
    let sectorInCluster ← udiv clusterOffset fs.bytesPerSector.toUInt32
    let sectorsEnd ← readSectors fs clusterIndex.toNat targetCluster clusterStart
      (bytesToRead.toNat + 1) (clusterStart + sectorInCluster) sectorOffset bytesToRead st
    finishCluster fs clusterIndex targetCluster sectorsEnd

/-- One round of the outer loop of `fat32_read`, over a cluster. -/
def readRound (fs : Fat32Fs) (clusterSize : UInt32) (st : ReadState) :
    Prog (Flow ReadState (Int32 × ReadState)) := do
  let clusterOffset ← umod st.file.fileOffset clusterSize
  let clusterIndex ← udiv st.file.fileOffset clusterSize
  match ← getClusterAtIndex fs st.file.startCluster clusterIndex with
  | .error result =>
    return .ret (if st.bytesRead > 0 then st.bytesRead.toInt32 else result, st)
  | .ok targetCluster => readCluster fs clusterSize clusterOffset clusterIndex targetCluster st

/-- The outer loop of `fat32_read`. -/
def readClusters (fs : Fat32Fs) (clusterSize : UInt32) :
    (fuel : ℕ) → ReadState → Prog (Int32 × ReadState)
  | 0, _ => Traced.fault .fuel
  | fuel + 1, st =>
    if st.remaining = 0 then return (st.bytesRead.toInt32, st)
    else do
      match ← readRound fs clusterSize st with
      | .ret r => return r
      | .next st => readClusters fs clusterSize fuel st

/-- `fat32_read`: its result, and the handle and the caller's buffer after it. -/
def fat32Read (file : Fat32File) (buffer : ℕ → UInt8) (size : Int32) : Prog (Int32 × ReadState) :=
  let fs := file.fs
  let remaining := size.toUInt32
  if file.fileOffset ≥ file.fileSize ∨ size = 0 then return (0, ⟨file, buffer, 0, remaining⟩)
  else
    let clusterSize := fs.bytesPerSector.toUInt32 * fs.sectorsPerCluster.toUInt32
    let maxReadable := file.fileSize - file.fileOffset
    let remaining := if remaining > maxReadable then maxReadable else remaining
    readClusters fs clusterSize (remaining.toNat + 1) ⟨file, buffer, 0, remaining⟩

/-! ## The cursor -/

/-- `fat32_tell`. -/
def fat32Tell (file : Fat32File) : Int32 := file.fileOffset.toInt32

/-- `fat32_seek`: its code, and the handle after it. -/
def fat32Seek (file : Fat32File) (offset : Int32) : Int32 × Fat32File :=
  if offset < 0 ∨ offset.toUInt32 > file.fileSize then (fat32ErrorBadParameter, file)
  else (fat32Success, { file with fileOffset := offset.toUInt32 })

/-- `fat32_eof`. -/
def fat32Eof (file : Fat32File) : Int32 := if file.fileOffset ≥ file.fileSize then 1 else 0

/-- `fat32_size`. -/
def fat32Size (file : Fat32File) : Int32 := file.fileSize.toInt32

/-- `fat32_close`. -/
def fat32Close (_file : Fat32File) : Int32 := fat32Success

end BeagleKernel.Fat32
