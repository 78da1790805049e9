import P2Proxy.FileSticky
import P2Proxy.StickyRuns

/-!
# Crashes of the file-backed store

A save writes the temporary file and renames it over the store file.  The process may die between two operations, in
the write, which leaves anything in the temporary file, or before the rename.  What is loaded afterwards is what the
store held right after the last operation whose rename took place, or what was loaded at the start (`crash_safe`).
-/

namespace P2Proxy

namespace StickyOp

/-- Is the store saved after the call? -/
def saves : StickyOp → Bool
  | .pool _ _ | .remember _ _ _ _ _ | .noteDirectAddress _ _ | .forgetPeer _ _ => true
  | .directAddress _ _ | .snapshot _ _ => false

end StickyOp

namespace FileStickyStore

open StickyOp (run)

variable {Raw : Type} [StickyJson Raw] {op : StickyOp} {ops : List StickyOp} {st : FileStickyStore Raw}

/-- A save that is cut off in the write, or before the rename. -/
inductive Cut (Raw : Type)
  | inWrite (left : Stored Raw)
  | beforeRename

/-- Where the process dies: after an operation, or in the save of one more. -/
inductive Crash (Raw : Type)
  | between
  | during (op : StickyOp) (saves : op.saves = true) (cut : Cut Raw)

/-- The store after the change that an operation makes in memory. -/
def inMemory (op : StickyOp) (st : FileStickyStore Raw) : FileStickyStore Raw := { st with state := op.apply st.state }

/-- The store when its save is cut off. -/
def cutSave (cut : Cut Raw) (st : FileStickyStore Raw) : FileStickyStore Raw :=
  match (StickyJson.toStringPretty { version := storeVersion, servers := st.state.pools } : Except String Raw) with
  | .error _ => st
  | .ok json =>
    match cut with
    | .inWrite left => { st with tmp := left }
    | .beforeRename => { st with tmp := .text json }

/-- The store when the process dies; only its files outlive it. -/
def crash (st : FileStickyStore Raw) : Crash Raw → FileStickyStore Raw
  | .between => st
  | .during op _ cut => cutSave cut (inMemory op st)

/-- The operation renames a new file into place. -/
def Renames (st : FileStickyStore Raw) (op : StickyOp) : Prop := op.saves = true ∧ st.fates 0 = .renamed

/-- An operation changes the state, and then saves it if it may have changed. -/
theorem apply_eq (op : StickyOp) (st : FileStickyStore Raw) :
    op.apply st = if op.saves then (inMemory op st).save else st := by
  cases op <;> rfl

theorem file_crash (st : FileStickyStore Raw) (c : Crash Raw) : (st.crash c).file = st.file := by
  cases c with
  | between => rfl
  | during op hsaves cut =>
    show (cutSave cut (inMemory op st)).file = st.file
    unfold cutSave
    split
    · rfl
    · cases cut <;> rfl

theorem loadPools_apply [LawfulStickyJson Raw] (h : Renames st op) :
    loadPools (op.apply st).file = (op.apply st).state.pools := by
  have hfate : (inMemory op st).fates 0 = .renamed := h.2
  rw [apply_eq, if_pos h.1, loadPools_save hfate, state_save]

theorem file_apply (h : ¬Renames st op) : (op.apply st).file = st.file := by
  rw [apply_eq]
  split
  · rename_i hsaves
    have hfate : (inMemory op st).fates 0 ≠ .renamed := fun hr => h ⟨hsaves, hr⟩
    exact file_save_of_ne hfate
  · rfl

/-- `op`, after `pre`, is the last operation of `ops` whose rename takes place. -/
def LastRename (st : FileStickyStore Raw) (ops pre : List StickyOp) (op : StickyOp) : Prop :=
  ∃ post, ops = pre ++ op :: post ∧ Renames (run pre st) op ∧
    ∀ l op' l', post = l ++ op' :: l' → ¬Renames (run (pre ++ op :: l) st) op'

/-- No rename of `ops` takes place. -/
def NoRename (st : FileStickyStore Raw) (ops : List StickyOp) : Prop :=
  ∀ l op l', ops = l ++ op :: l' → ¬Renames (run l st) op

private theorem noRename_concat (h : NoRename st (ops ++ [op])) : NoRename st ops ∧ ¬Renames (run ops st) op :=
  ⟨fun l op' l' hl => h l op' (l' ++ [op]) (by simp [hl]), h ops op [] rfl⟩

/-- The file after some operations, from the last rename or from the start. -/
theorem loadPools_run [LawfulStickyJson Raw] (ops : List StickyOp) (st : FileStickyStore Raw) :
    (∀ pre op, LastRename st ops pre op → loadPools (run ops st).file = (run (pre ++ [op]) st).state.pools) ∧
      (NoRename st ops → (run ops st).file = st.file) := by
  induction ops using List.reverseRecOn with
  | nil =>
    refine ⟨?_, fun _ => rfl⟩
    rintro pre op ⟨post, h, -⟩
    simp at h
  | append_singleton ops op ih =>
    rw [StickyOp.run_concat]
    refine ⟨?_, fun hno => ?_⟩
    · rintro pre op' ⟨post, hops, hrenames, hlast⟩
      rcases List.eq_nil_or_concat post with rfl | ⟨post', last, rfl⟩
      · -- the operation itself renames
        obtain ⟨rfl, hop⟩ := List.append_inj' hops rfl
        obtain rfl := (List.cons.inj hop).1
        rw [StickyOp.run_concat]
        exact loadPools_apply hrenames
      · rw [List.concat_eq_append, ← List.cons_append, ← List.append_assoc] at hops
        obtain ⟨rfl, hop⟩ := List.append_inj' hops rfl
        obtain rfl := (List.cons.inj hop).1
        rw [List.concat_eq_append] at hlast
        rw [file_apply (hlast post' op [] rfl)]
        exact ih.1 pre op' ⟨post', rfl, hrenames, fun l op'' l' hl => hlast l op'' (l' ++ [op]) (by simp [hl])⟩
    · obtain ⟨hno, hop⟩ := noRename_concat hno
      rw [file_apply hop, ih.2 hno]

/-- Wherever the process dies, the next one finds the pools that the store held right after the last operation whose
rename took place, or the pools that were loaded at the start if there was none. -/
theorem crash_safe [LawfulStickyJson Raw] (file tmp : Stored Raw) (fates fates' : Nat → SaveFate Raw)
    (ops : List StickyOp) (c : Crash Raw) :
    let start : FileStickyStore Raw := load file tmp fates
    let dead := (run ops start).crash c
    let reloaded : FileStickyStore Raw := load dead.file dead.tmp fates'
    (∀ pre op, LastRename start ops pre op → reloaded.state.pools = (run (pre ++ [op]) start).state.pools) ∧
      (NoRename start ops → reloaded.state.pools = start.state.pools) := by
  intro start dead reloaded
  have hfile : dead.file = (run ops start).file := file_crash _ c
  have hreloaded : reloaded.state.pools = loadPools (run ops start).file := congrArg loadPools hfile
  obtain ⟨hlast, hnone⟩ := loadPools_run ops start
  refine ⟨fun pre op h => hreloaded.trans (hlast pre op h), fun h => ?_⟩
  rw [hreloaded, hnone h]
  rfl

/-- The process dies in the write of its second save, the first was renamed: the next one knows the first exit. -/
theorem crash_safe_torn :
    let op : StickyOp := .remember 1 1080 "NL" ⟨[1]⟩ 30
    let start : FileStickyStore StickyFile := load .absent .absent fun _ => .renamed
    let dead := (run [op] start).crash (.during (.forgetPeer 1080 ⟨[1]⟩) rfl (.inWrite .unreadable))
    (load dead.file dead.tmp fun _ => .renameFailed).state.pools = (op.apply start).state.pools :=
  (crash_safe (.absent : Stored StickyFile) .absent (fun _ => .renamed) (fun _ => .renameFailed) _ _).1 []
    (.remember 1 1080 "NL" ⟨[1]⟩ 30) ⟨[], rfl, ⟨rfl, rfl⟩, fun l op' l' h => by simp at h⟩

end FileStickyStore

end P2Proxy
