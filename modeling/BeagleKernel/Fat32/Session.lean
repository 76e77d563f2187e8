import BeagleKernel.Fat32.Plain
import BeagleKernel.Lib.Reader

/-!
# Sessions with a volume

Calls on some handles of one volume, and what they are for: the volume is a store of files, an open
looks a file up by the entries its path spells, and a handle is from then on a reader of the file's
bytes, with a hole where a sector cannot be read.
-/

namespace BeagleKernel.Fat32

/-- A call: an open into a handle, with `prior` in the memory its path structure takes, or a call
on one. -/
inductive Call
  | opens (handle : ℕ) (path : CString) (prior : ℕ → UInt8)
  | on (handle : ℕ) (op : FileOp)

/-- A call that returns, and what it returns. -/
def SessionStep (fs : Fat32Fs) : Call × Reply → (ℕ → Fat32File) → (ℕ → Fat32File) → Prop
  | (.opens handle path prior, reply), files, files' => ∃ r file,
      (∃ n, ∀ fuel ≥ n, (fat32Open fuel fs path (files handle) prior).val = .ok (r, file)) ∧
        reply = .code r ∧ files' = Function.update files handle file
  | (.on handle op, reply), files, files' => ∃ file,
      fileStep (files handle) op = .ok (reply, file) ∧ files' = Function.update files handle file

/-- Reads of a file one after the other, each with a buffer of its own: the bytes their results
count, and the handle after them. -/
def readParts : Fat32File → List (Int32 × (ℕ → UInt8)) → Except Fault (List UInt8 × Fat32File)
  | file, [] => return ([], file)
  | file, (size, buffer) :: parts => do
    let (r, st) ← (fat32Read file buffer size).val
    let (bytes, file') ← readParts st.file parts
    return (bufferBytes st.buffer r.toInt.toNat ++ bytes, file')

/-! ## What the calls are for -/

/-- What a call on a file may return, and the reader after it. A read returns what it gets and the
count of it, and an error only if there is something to read and the first of it is missing. -/
def Answers (r : Reader UInt8) : FileOp → Reply → Reader UInt8 → Prop
  | .seek offset, reply, r' =>
    if 0 ≤ offset.toInt ∧ offset.toInt ≤ r.size then
      reply = .code fat32Success ∧ r' = { r with pos := offset.toInt.toNat }
    else reply = .code fat32ErrorBadParameter ∧ r' = r
  | .read size _, reply, r' =>
    let n := size.toUInt32.toNat
    r' = (r.read n).2 ∧
      if 0 < r.room n ∧ r.item r.pos = none then ∃ code < 0, reply = .data code []
      else reply = .data (Int32.ofNat (r.get n).length) (r.get n)
  | .tell, reply, r' => reply = .code (Int32.ofNat r.pos) ∧ r' = r
  | .eof, reply, r' => reply = .code (if r.pos = r.size then 1 else 0) ∧ r' = r

/-- The bytes of a file that starts at a cluster, where they can be read, and a place among them. -/
def fileReader (fs : Fat32Fs) (start size offset : UInt32) : Reader UInt8 :=
  ⟨chainByte fs start, size.toNat, offset.toNat⟩

/-- A call on the files that are open. An open that fails leaves them as they are; of the replies
to a call on a handle that has not been opened nothing is said. -/
def StoreStep (fs : Fat32Fs) :
    Call × Reply → (ℕ → Option (Reader UInt8)) → (ℕ → Option (Reader UInt8)) → Prop
  | (.opens handle path _, reply), files, files' =>
    (∃ e, Resolves fs fs.rootCluster (components path) e ∧ reply = .code fat32Success ∧
      files' = Function.update files handle (some (fileReader fs e.startCluster e.fileSize 0))) ∨
    (∃ r, r ≠ fat32Success ∧ (∀ e, ¬ Resolves fs fs.rootCluster (components path) e) ∧
      reply = .code r ∧ files' = files)
  | (.on handle op, reply), files, files' =>
    match files handle with
    | none => files' = files
    | some r => ∃ r', Answers r op reply r' ∧ files' = Function.update files handle (some r')

/-- A call whose path, if it has one, is plain. -/
def PlainCall (fs : Fat32Fs) : Call × Reply → Prop
  | (.opens _ path _, _) => PlainPath fs path
  | (.on _ _, _) => True

end BeagleKernel.Fat32
