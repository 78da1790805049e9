import P2Proxy.Sticky

/-!
# The file-backed sticky store

`FileStickyStore` is a `StickyState` that is written to a file after every operation that may have changed it.  The
JSON library is a parameter, a `StickyJson` that writes a file to a text and reads it back; what the operating system
does with a save, to rename the new text into place, to fail in the rename or to fail in the write, is an answer from
outside, so a store carries the outcomes of its coming saves.
-/

namespace P2Proxy

def storeVersion : Nat := 2

structure StickyFile where
  version : Nat
  servers : Port → Option StickyPool

structure StickyEntryV1 where
  peerId : PeerId
  fingerprint : String
  updatedAt : DateTime

structure StickyFileV1 where
  servers : Port → Option StickyEntryV1

/-- `serde_json`, for the three types that are read or written; `Raw` is the type of the texts. -/
class StickyJson (Raw : Type) where
  toStringPretty : StickyFile → Except String Raw
  versionProbe : Raw → Except String Nat
  stickyFile : Raw → Except String StickyFile
  stickyFileV1 : Raw → Except String StickyFileV1

/-- What is written is read back. -/
class LawfulStickyJson (Raw : Type) [StickyJson Raw] : Prop where
  roundTrip : ∀ file : StickyFile, ∃ raw : Raw, StickyJson.toStringPretty file = .ok raw ∧
    StickyJson.versionProbe raw = .ok file.version ∧ StickyJson.stickyFile raw = .ok file

/-- A library whose texts are the files themselves. -/
instance : StickyJson StickyFile where
  toStringPretty file := .ok file
  versionProbe file := .ok file.version
  stickyFile file := .ok file
  stickyFileV1 _ := .error "unknown version"

instance : LawfulStickyJson StickyFile := ⟨fun file => ⟨file, rfl, rfl, rfl⟩⟩

/-- What is found at a path. -/
inductive Stored (Raw : Type)
  | absent
  | unreadable
  | text (raw : Raw)

/-- How a save ends; a failed write leaves something in the temporary file. -/
inductive SaveFate (Raw : Type)
  | renamed
  | renameFailed
  | writeFailed (left : Stored Raw)

structure FileStickyStore (Raw : Type) where
  state : StickyState
  file : Stored Raw
  tmp : Stored Raw
  fates : Nat → SaveFate Raw

def migrateV1 (servers : Port → Option StickyEntryV1) : Port → Option StickyPool := fun port =>
  (servers port).map fun entry =>
    { fingerprint := entry.fingerprint
      peers := [{ peerId := entry.peerId, address := none, updatedAt := entry.updatedAt }] }

namespace FileStickyStore

variable {Raw : Type} [StickyJson Raw]

def parse (raw : Raw) : Port → Option StickyPool :=
  match (match StickyJson.versionProbe raw with | .ok version => version | .error _ => 0) with
  | 2 =>
    match (StickyJson.stickyFile raw : Except String StickyFile) with
    | .ok f => f.servers
    | .error _ => fun _ => none
  | 1 =>
    match (StickyJson.stickyFileV1 raw : Except String StickyFileV1) with
    | .ok f => migrateV1 f.servers
    | .error _ => fun _ => none
  | _ => fun _ => none

/-- The pools that are loaded from a file. -/
def loadPools : Stored Raw → Port → Option StickyPool
  | .absent => fun _ => none
  | .unreadable => fun _ => none
  | .text raw => parse raw

def load (file tmp : Stored Raw) (fates : Nat → SaveFate Raw) : FileStickyStore Raw :=
  { state := { pools := loadPools file }, file, tmp, fates }

def save (st : FileStickyStore Raw) : FileStickyStore Raw :=
  match (StickyJson.toStringPretty { version := storeVersion, servers := st.state.pools } : Except String Raw) with
  | .error _ => st
  | .ok json =>
    let st' := { st with fates := fun n => st.fates (n + 1) }
    match st.fates 0 with
    | .writeFailed left => { st' with tmp := left }
    | .renameFailed => { st' with tmp := .text json }
    | .renamed => { st' with file := .text json, tmp := .absent }

instance : StickyStore (FileStickyStore Raw) where
  pool port fingerprint st :=
    let r := st.state.pool port fingerprint
    (r.1, save { st with state := r.2 })
  directAddress port peer st := st.state.directAddress port peer
  remember now port fingerprint peer max st :=
    let r := st.state.remember now port fingerprint peer max
    (r.1, save { st with state := r.2 })
  noteDirectAddress peer address st := save { st with state := st.state.noteDirectAddress peer address }
  forgetPeer port peer st := save { st with state := st.state.forgetPeer port peer }
  snapshot port fingerprint st := st.state.snapshot port fingerprint

@[simp] theorem state_save (st : FileStickyStore Raw) : st.save.state = st.state := by
  unfold save
  split
  · rfl
  · dsimp only
    split <;> rfl

/-- Whatever happens to the saves, the store behaves as its state. -/
instance : LawfulStickyStore (FileStickyStore Raw) where
  view st := st.state
  pool_fst _ _ _ := rfl
  view_pool _ _ _ := state_save _
  directAddress_eq _ _ _ := rfl
  view_remember _ _ _ _ _ _ := state_save _
  view_noteDirectAddress _ _ _ := state_save _
  view_forgetPeer _ _ _ := state_save _
  snapshot_eq _ _ _ := rfl

@[simp] theorem view_eq (st : FileStickyStore Raw) : view st = st.state := rfl

/-- All coming saves succeed, and loading the file now would give the state. -/
structure Synced (st : FileStickyStore Raw) : Prop where
  loadPools_eq : loadPools st.file = st.state.pools
  renamed : ∀ n, st.fates n = .renamed

theorem Synced.load {file tmp : Stored Raw} {fates : Nat → SaveFate Raw} (h : ∀ n, fates n = .renamed) :
    (load file tmp fates).Synced := ⟨rfl, h⟩

/-- A save whose rename takes place brings the file up to date. -/
theorem loadPools_save [LawfulStickyJson Raw] {st : FileStickyStore Raw} (h : st.fates 0 = .renamed) :
    loadPools st.save.file = st.state.pools := by
  let file : StickyFile := { version := storeVersion, servers := st.state.pools }
  obtain ⟨raw, hw, hv, hr⟩ : ∃ raw : Raw, _ := LawfulStickyJson.roundTrip file
  have hsave : st.save.file = .text raw := by
    unfold FileStickyStore.save
    rw [hw, h]
  rw [hsave]
  show parse raw = st.state.pools
  unfold parse
  rw [hv, hr]
  rfl

/-- Any other save leaves the file alone. -/
theorem file_save_of_ne {st : FileStickyStore Raw} (h : st.fates 0 ≠ .renamed) : st.save.file = st.file := by
  unfold FileStickyStore.save
  split
  · rfl
  · dsimp only
    split
    · rfl
    · rfl
    · rename_i hr; exact absurd hr h

/-- A save that succeeds brings the file up to date. -/
theorem Synced.save [LawfulStickyJson Raw] {st : FileStickyStore Raw} (h : ∀ n, st.fates n = .renamed) :
    st.save.Synced := by
  refine ⟨by rw [loadPools_save (h 0), state_save], fun n => ?_⟩
  unfold FileStickyStore.save
  split
  · exact h n
  · rw [h 0]
    exact h (n + 1)

end FileStickyStore

end P2Proxy
