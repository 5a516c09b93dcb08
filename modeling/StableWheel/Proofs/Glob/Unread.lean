import StableWheel.Glob.Search
import StableWheel.Proofs.FileSystem.Shape

/-! What a search does not look at.

A search asks where paths lead and what directories are called, but never opens a file, so it finds
the same in all file systems of one shape (`Query.run_of_sameShape`). -/
namespace StableWheel.Glob
open FileSystem

variable {a b : FileSystem} (h : SameShape a b)
include h

theorem reach_of_sameShape (p : Path) : reach a p = reach b p := by
  rw [reach, reach, h.isDirectory]

variable (ha : Tidy a) (hb : Tidy b)
include ha hb

theorem expand_of_sameShape (components : List (List Token)) (r : Reached) :
    expand a components r = expand b components r := by
  induction components generalizing r with
  | nil => rfl
  | cons component rest ih =>
    unfold expand
    simp only [h.status_isOk, h.exists?, h.readDirectory ha hb, reach_of_sameShape h, ih]

theorem compare_of_sameShape (wantsDirectory : Bool)
    (deeper : Pending → List (Except (Path × FileError) Path)) (r : Reached)
    (components : List (List Token)) :
    compare a wantsDirectory deeper r components = compare b wantsDirectory deeper r components := by
  cases components with
  | nil => rfl
  | cons component rest => rw [compare, compare, expand_of_sameShape h ha hb]

theorem collect_of_sameShape (wantsDirectory : Bool) (depth : Nat) (pending : Pending) :
    collect a wantsDirectory depth pending = collect b wantsDirectory depth pending := by
  induction depth generalizing pending with
  | zero => rfl
  | succ depth ih =>
    have hdeeper : collect a wantsDirectory depth = collect b wantsDirectory depth := funext ih
    unfold collect
    cases pending with
    | found r => rfl
    | unreadable p e => rfl
    | entry r components =>
      simp only [hdeeper, expand_of_sameShape h ha hb, compare_of_sameShape h ha hb]

/-- The same is found, in the same order. -/
theorem Query.run_of_sameShape (q : Query) : q.run a = q.run b := by
  rw [Query.run, Query.run, reach_of_sameShape h, expand_of_sameShape h ha hb,
    funext (collect_of_sameShape h ha hb q.wantsDirectory _)]

end StableWheel.Glob
