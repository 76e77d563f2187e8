import BeagleKernel.Fat32.Volume

/-!
# What a file handle is for

A handle is a cursor into a byte array. `Cursor` is that object, with the operations of the
driver's interface; `fileStep` is the driver's own.
-/

namespace BeagleKernel.Fat32

/-- A call on an open file; a read brings its buffer. -/
inductive FileOp
  | seek (offset : Int32)
  | read (size : Int32) (buffer : ℕ → UInt8)
  | tell
  | eof

/-- A read's size is not negative. -/
def FileOp.Ok : FileOp → Prop
  | read size _ => 0 ≤ size
  | _ => True

/-- What a call returns: a code, or a count and that many bytes. -/
inductive Reply
  | code (r : Int32)
  | data (r : Int32) (bytes : List UInt8)
  deriving DecidableEq

/-- The first `n` bytes of a buffer. -/
def bufferBytes (buffer : ℕ → UInt8) (n : ℕ) : List UInt8 := (List.range n).map buffer

/-- A call of the driver. -/
def fileStep (file : Fat32File) : FileOp → Except Fault (Reply × Fat32File)
  | .seek offset =>
    let (r, file') := fat32Seek file offset
    return (.code r, file')
  | .read size buffer => do
    let (r, st) ← (fat32Read file buffer size).val
    return (.data r (bufferBytes st.buffer r.toInt.toNat), st.file)
  | .tell => return (.code (fat32Tell file), file)
  | .eof => return (.code (fat32Eof file), file)

/-- The replies of the driver to a sequence of calls. -/
def fileRun : Fat32File → List FileOp → Except Fault (List Reply)
  | _, [] => return []
  | file, op :: ops => do
    let (reply, file') ← fileStep file op
    let replies ← fileRun file' ops
    return reply :: replies

/-- A byte array and a place in it. -/
structure Cursor where
  contents : List UInt8
  pos : ℕ
  le : pos ≤ contents.length

namespace Cursor

/-- How many bytes a read gets. -/
def available (c : Cursor) (size : ℕ) : ℕ := min size (c.contents.length - c.pos)

theorem available_le (c : Cursor) (size : ℕ) :
    c.pos + c.available size ≤ c.contents.length := by
  have h : c.available size ≤ c.contents.length - c.pos := min_le_right _ _
  have := c.le
  omega

def step (c : Cursor) : FileOp → Reply × Cursor
  | .seek offset =>
    if h : 0 ≤ offset.toInt ∧ offset.toInt ≤ c.contents.length then
      (.code fat32Success, ⟨c.contents, offset.toInt.toNat, by omega⟩)
    else (.code fat32ErrorBadParameter, c)
  | .read size _ =>
    let n := c.available size.toInt.toNat
    (.data (Int32.ofNat n) ((c.contents.drop c.pos).take n),
      ⟨c.contents, c.pos + n, c.available_le _⟩)
  | .tell => (.code (Int32.ofNat c.pos), c)
  | .eof => (.code (if c.pos = c.contents.length then 1 else 0), c)

def run : Cursor → List FileOp → List Reply
  | _, [] => []
  | c, op :: ops => (c.step op).1 :: run (c.step op).2 ops

end Cursor

/-- The clusters a file of `size` bytes takes. -/
def clustersFor (fs : Fat32Fs) (size : ℕ) : ℕ := (size + clusterBytes fs - 1) / clusterBytes fs

/-- A handle on a volume that can be read, of a file its chain has the clusters for. -/
structure Sound (file : Fat32File) : Prop where
  readable : Readable file.fs
  start : 3 ≤ file.startCluster.toNat
  size : file.fileSize.toNat < 2 ^ 31
  offset : file.fileOffset.toNat ≤ file.fileSize.toNat
  clusters : HasClusters file.fs file.startCluster (clustersFor file.fs file.fileSize.toNat)

theorem length_contents (fs : Fat32Fs) (start : UInt32) (size : ℕ) :
    (contents fs start size).length = size := by
  simp [contents]

/-- The cursor a handle stands for. -/
def Fat32File.cursor (file : Fat32File) (h : file.fileOffset.toNat ≤ file.fileSize.toNat) :
    Cursor where
  contents := contents file.fs file.startCluster file.fileSize.toNat
  pos := file.fileOffset.toNat
  le := by rwa [length_contents]

end BeagleKernel.Fat32
