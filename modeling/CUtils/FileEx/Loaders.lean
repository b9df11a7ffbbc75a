import CUtils.FileEx.Model
import Mathlib.Order.Basic
import Mathlib.Tactic.Tauto

/-!
# What the loaders leave in the output

`LoadStringFromFile` clears the output before it copies, in every case. The other two replace it
where they resize it, but each has a branch that does neither: `LoadStringFromFd` returns at once
when the file is empty, and `LoadBufferFromNodeFile` appends.

`loaders_overwrite_iff` says for which files and which previous outputs the three loaders leave
exactly the bytes of the file.
-/

namespace CUtils.FileEx

variable {sys : System}

/-- When the loader returns `true`, the output holds the bytes of the file and nothing else. -/
def Exact (r : Bool × List UInt8) (f : File) : Prop := r.1 = true → r.2 = f.bytes

/-- The names the system gives lead where they should: a link under `/proc/self/fd` to the file of
the descriptor, if it opens at all, and a resolved path to the file of the path. -/
structure System.Sound (sys : System) : Prop where
  link : ∀ ⦃fd name f⦄, sys.readlink fd = some name → sys.opens name = some f → f = sys.behind fd
  real : ∀ ⦃path name⦄, sys.realpath path = some name → sys.opens name = sys.opens path

/-! ## Streams -/

/-- After seeking to the end and back, the whole file is to come: on a node both calls fail and
leave the buffer where it was. -/
theorem seek_rest (f : File) : (Ifstream.seekgEnd { file := f }).seekgBeg.rest = f.bytes := by
  cases hf : f.seekable with
  | true => simp [Ifstream.seekgEnd, Ifstream.seekgBeg, Ifstream.rest, hf]
  | false => simp [Ifstream.seekgEnd, Ifstream.seekgBeg, Ifstream.rest, hf]

theorem tellg_end (f : File) : (Ifstream.seekgEnd { file := f }).tellg = lseekEnd f := by
  cases hf : f.seekable with
  | true => simp [Ifstream.seekgEnd, Ifstream.tellg, lseekEnd, hf]
  | false => simp [Ifstream.seekgEnd, Ifstream.tellg, lseekEnd, hf]

theorem lseekEnd_le {f : File} (hlen : (f.bytes.length : Int) ≤ maxFileLength) :
    ¬ lseekEnd f > maxFileLength := by
  have : (0 : Int) ≤ maxFileLength := by decide
  unfold lseekEnd
  split
  · omega
  · omega

/-- What replaces all of a buffer of its own length leaves nothing of it. -/
theorem store_resize (content bs : List UInt8) : store (resize content bs.length) bs = bs := by
  have hlen : (resize content bs.length).length = bs.length := by
    simp only [resize, List.length_append, List.length_take, List.length_replicate]
    omega
  rw [store, List.drop_of_length_le (Nat.le_of_eq hlen), List.append_nil]

/-! ## The loaders -/

theorem loadStringFromFile_eq {path : String} {f : File} (hopen : sys.opens path = some f)
    (hlen : (f.bytes.length : Int) ≤ maxFileLength) (content : List UInt8) :
    loadStringFromFile sys path content = (true, f.bytes) := by
  simp only [loadStringFromFile, hopen, tellg_end]
  rw [if_neg (lseekEnd_le hlen), seek_rest, List.nil_append]

/-- Whatever a path opens, the string is replaced. -/
theorem loadStringFromFdToFile_exact (hsys : sys.Sound) (fd : Int)
    (hlen : ((sys.behind fd).bytes.length : Int) ≤ maxFileLength) (content : List UInt8) :
    Exact (loadStringFromFdToFile sys fd content) (sys.behind fd) := by
  intro hok
  unfold loadStringFromFdToFile at hok ⊢
  cases hname : getFileNameByFd sys fd with
  | none => simp [hname] at hok
  | some name =>
      simp only [hname] at hok ⊢
      have hlink : sys.readlink fd = some name := (Option.ite_none_left_eq_some.1 hname).2
      cases hopen : sys.opens name with
      | none => simp [loadStringFromFile, hopen] at hok
      | some f =>
          have hf := hsys.link hlink hopen
          subst hf
          rw [loadStringFromFile_eq hopen hlen]

theorem loadStringFromFd_exact_iff (hsys : sys.Sound) {fd : Int} (hfd : 0 < fd)
    (hlen : ((sys.behind fd).bytes.length : Int) ≤ maxFileLength) (content : List UInt8) :
    Exact (loadStringFromFd sys fd content) (sys.behind fd) ↔
      ((sys.behind fd).seekable = true → (sys.behind fd).bytes = [] → content = []) := by
  unfold loadStringFromFd
  rw [if_neg (by omega)]
  dsimp only
  rw [if_neg (lseekEnd_le hlen)]
  cases hseek : (sys.behind fd).seekable with
  | false =>
      have hnode : lseekEnd (sys.behind fd) = -1 := by simp [lseekEnd, hseek]
      rw [if_pos (by omega)]
      exact ⟨fun _ h => absurd h (by simp), fun _ => loadStringFromFdToFile_exact hsys fd hlen content⟩
  | true =>
      have hend : lseekEnd (sys.behind fd) = (sys.behind fd).bytes.length := by simp [lseekEnd, hseek]
      rw [if_neg (by omega)]
      by_cases hempty : (sys.behind fd).bytes = []
      · -- an empty file: the output is returned as it was
        rw [if_pos (by rw [hend, hempty]; rfl)]
        simp [Exact, hempty]
      · have hpos : 0 < (sys.behind fd).bytes.length := List.length_pos_of_ne_nil hempty
        rw [if_neg (by omega)]
        refine ⟨fun _ _ h => absurd h hempty, fun _ hok => ?_⟩
        have hall : (lseekEnd (sys.behind fd)).toNat = (sys.behind fd).bytes.length := by omega
        simp only [hall, List.take_length, decide_eq_true_eq] at hok ⊢
        have hdata : (sys.behind fd).bytes.take (sys.transfer (sys.behind fd).bytes.length) =
            (sys.behind fd).bytes := by
          rw [List.length_take] at hok
          exact List.take_of_length_le (by omega)
        rw [hdata, store_resize]

/-- The character loop appends, as long as the limit is not passed. -/
theorem nodeLoop_eq {bs : List UInt8} {n : Int} (content : List UInt8)
    (h : n + bs.length ≤ maxFileLength + 1) : nodeLoop bs n content = (true, content ++ bs) := by
  induction bs generalizing n content with
  | nil => rw [nodeLoop, List.append_nil]
  | cons b bs ih =>
      rw [List.length_cons] at h
      rw [nodeLoop, if_neg (by omega), ih _ (by omega), List.append_assoc, List.singleton_append]

theorem realpath_of_pathToRealPath {path name : String} (h : pathToRealPath sys path = some name) :
    sys.realpath path = some name := by
  obtain ⟨-, h⟩ := Option.ite_none_left_eq_some.1 h
  obtain ⟨-, h⟩ := Option.ite_none_left_eq_some.1 h
  cases hreal : sys.realpath path with
  | none => simp [hreal] at h
  | some realPath =>
      simp only [hreal] at h
      exact (Option.ite_none_right_eq_some.1 h).2

theorem loadBufferFromNodeFile_exact_iff (hsys : sys.Sound) {path : String} {f : File}
    (hopen : sys.opens path = some f) (hlen : (f.bytes.length : Int) ≤ maxFileLength)
    (content : List UInt8) :
    Exact (loadBufferFromNodeFile sys path content) f ↔
      content = [] ∨ pathToRealPath sys path = none := by
  unfold loadBufferFromNodeFile
  cases hreal : pathToRealPath sys path with
  | none => simp [Exact]
  | some name =>
      have hsome := realpath_of_pathToRealPath hreal
      have hname : sys.opens name = some f := (hsys.real hsome).trans hopen
      dsimp only
      rw [hname]
      dsimp only
      rw [nodeLoop_eq content (by omega)]
      simp [Exact]

theorem loadBufferFromFile_exact_iff (hsys : sys.Sound) {path : String} {f : File}
    (hopen : sys.opens path = some f) (hlen : (f.bytes.length : Int) ≤ maxFileLength)
    (content : List UInt8) :
    Exact (loadBufferFromFile sys path content) f ↔
      (f.seekable = false → content = [] ∨ pathToRealPath sys path = none) := by
  simp only [loadBufferFromFile, hopen, tellg_end]
  rw [if_neg (lseekEnd_le hlen)]
  cases hseek : f.seekable with
  | false =>
      have hnode : lseekEnd f = -1 := by simp [lseekEnd, hseek]
      rw [if_pos (by omega)]
      simpa using loadBufferFromNodeFile_exact_iff hsys hopen hlen content
  | true =>
      have hend : lseekEnd f = f.bytes.length := by simp [lseekEnd, hseek]
      have hall : (lseekEnd f).toNat = f.bytes.length := by omega
      refine ⟨fun _ h => absurd h (by simp), fun _ hok => ?_⟩
      rw [if_neg (by omega)] at hok ⊢
      by_cases hempty : f.bytes = []
      · rw [if_pos (by rw [hend, hempty]; rfl), hempty]
      · have hpos : 0 < f.bytes.length := List.length_pos_of_ne_nil hempty
        have hgood : (Ifstream.seekgEnd { file := f }).seekgBeg.fail = false := by
          simp [Ifstream.seekgEnd, Ifstream.seekgBeg, hseek]
        rw [if_neg (by omega), if_neg (by simp [hgood]), hall]
        have hread : (Ifstream.seekgEnd { file := f }).seekgBeg.read f.bytes.length = f.bytes := by
          rw [Ifstream.read, if_neg (by simp [hgood]), seek_rest, List.take_length]
        rw [hread, store_resize]

/-- The three loaders leave exactly the bytes of the file in the output, whatever it held. -/
def Overwrites (sys : System) (path : String) (fd : Int) (content : List UInt8) : Prop :=
  Exact (loadStringFromFile sys path content) (sys.behind fd) ∧
    Exact (loadStringFromFd sys fd content) (sys.behind fd) ∧
    Exact (loadBufferFromFile sys path content) (sys.behind fd)

/-- **When the loaders overwrite.** For a file of at most `MAX_FILE_LENGTH` bytes, given by a path
and by a descriptor, all three do if and only if the output was empty, or the file is a non-empty
one that can be sought in, or it is a node whose path is not resolved. -/
theorem loaders_overwrite_iff (hsys : sys.Sound) (path : String) (fd : Int) (hfd : 0 < fd)
    (hopen : sys.opens path = some (sys.behind fd))
    (hlen : ((sys.behind fd).bytes.length : Int) ≤ maxFileLength) (content : List UInt8) :
    Overwrites sys path fd content ↔ content = [] ∨
      if (sys.behind fd).seekable = true then (sys.behind fd).bytes ≠ []
      else pathToRealPath sys path = none := by
  have hstring : Exact (loadStringFromFile sys path content) (sys.behind fd) := fun _ => by
    rw [loadStringFromFile_eq hopen hlen]
  unfold Overwrites
  rw [and_iff_right hstring, loadStringFromFd_exact_iff hsys hfd hlen,
    loadBufferFromFile_exact_iff hsys hopen hlen]
  cases (sys.behind fd).seekable with
  | true =>
      simp only [true_implies, Bool.true_eq_false, false_implies, and_true, if_true]
      tauto
  | false =>
      simp only [Bool.false_eq_true, false_implies, true_and, true_implies, if_false]

/-- A system with one file, at the path `a`. -/
def oneFile (f : File) : System where
  opens path := if path = "a" then some f else none
  behind _ := f
  readlink _ := some "a"
  realpath path := if path = "a" then some "a" else none
  access _ := true
  transfer n := n

theorem oneFile_sound (f : File) : (oneFile f).Sound := by
  refine ⟨fun fd name f' hname hopen => ?_, fun path name hname => ?_⟩
  · rw [← Option.some.inj hname] at hopen
    exact (Option.some.inj hopen).symm
  · obtain ⟨hpath, hname⟩ := Option.ite_none_right_eq_some.1 hname
    rw [hpath, Option.some.inj hname]

theorem loaders_overwrite_iff_two : Overwrites (oneFile ⟨[104, 105], true⟩) "a" 3 [0, 0, 0] :=
  (loaders_overwrite_iff (oneFile_sound _) "a" 3 (by decide) rfl (by decide) _).2
    (Or.inr (by decide))

/-- An empty file: `LoadStringFromFd` reports success and leaves the old text. -/
theorem empty_file_keeps_content :
    (oneFile ⟨[], true⟩).Sound ∧ ¬ Overwrites (oneFile ⟨[], true⟩) "a" 3 [120] := by
  refine ⟨oneFile_sound _, fun h => ?_⟩
  have hexact := h.2.1
  exact absurd (hexact rfl) (by decide)

-- a node is appended to what the buffer held
example : loadBufferFromFile (oneFile ⟨[104, 105], false⟩) "a" [120] = (true, [120, 104, 105]) := by
  decide

end CUtils.FileEx
