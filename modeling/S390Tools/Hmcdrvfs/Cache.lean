import S390Tools.Hmcdrvfs.Listing

/-!
# The file cache (hmcdrvfs/hmcdrvfs.c)

The cache is a table of collision lists with one entry for a path.
-/

namespace Hmcdrvfs

open CString Word

def HMCDRV_FUSE_CACHE_SIZE : Nat := 2053

/-- `struct hmcdrv_fuse_file` -/
structure CacheFile where
  path : Bytes
  st : Stat
  symlnk : Option Bytes
  timeout : Int
  deriving DecidableEq

abbrev Cache := Nat → List CacheFile

def hmcdrv_hash_path (path : Bytes) : Nat :=
  path.foldl (fun hash c => u32 (hash + c.toNat : Nat)) 4294967295 % HMCDRV_FUSE_CACHE_SIZE

/-- The target that is kept for the string in the buffer `symlink`. -/
def hmcdrv_cache_symlink (symlink : Bytes) : Option Bytes :=
  if str symlink = [] then none else some ((str symlink).take (HMCDRV_FUSE_MAXPATH - 1))

def lookup (cache : Cache) (path : Bytes) : Option CacheFile :=
  (cache (hmcdrv_hash_path path)).find? fun fp => fp.path = path

def refresh_list (f : CacheFile) : List CacheFile → List CacheFile
  | [] => [f]
  | fp :: next => if fp.path = f.path then f :: next else fp :: refresh_list f next

/-- `timeout` is the current time with the cache timeout. -/
def hmcdrv_cache_refresh (timeout : Int) (path : Bytes) (st : Stat) (symlnk : Option Bytes)
    (cache : Cache) : Cache :=
  if path.length = 0 ∨ HMCDRV_FUSE_MAXPATH ≤ path.length then cache
  else
    Function.update cache (hmcdrv_hash_path path)
      (refresh_list ⟨path, st, symlnk, timeout⟩ (cache (hmcdrv_hash_path path)))

theorem find_refresh_list (f : CacheFile) (path : Bytes) : ∀ l : List CacheFile,
    (refresh_list f l).find? (fun fp => fp.path = path) = if f.path =
      path then some f else l.find? fun fp => fp.path = path
  | [] => by
    rw [refresh_list, List.find?_cons]
    split <;> simp_all
  | fp :: next => by
    rw [refresh_list]
    by_cases hp : fp.path = f.path
    · rw [if_pos hp, List.find?_cons, List.find?_cons, hp]
      by_cases h : f.path = path
      · simp [h]
      · simp [h]
    · rw [if_neg hp, List.find?_cons, List.find?_cons, find_refresh_list f path next]
      by_cases h : f.path = path
      · rw [if_pos h, if_pos h]
        have : fp.path ≠ path := fun h0 => hp (h0.trans h.symm)
        simp [this]
      · rw [if_neg h, if_neg h]

theorem lookup_refresh {timeout : Int} {path : Bytes} {st : Stat} {symlnk : Option Bytes}
    (cache : Cache) (hne : path ≠ [])
    (hlt : path.length < HMCDRV_FUSE_MAXPATH) (q : Bytes) :
    lookup (hmcdrv_cache_refresh timeout path st symlnk cache) q =
      if path = q then some ⟨path, st, symlnk, timeout⟩ else lookup cache q := by
  have hpos := List.length_pos_iff.mpr hne
  rw [hmcdrv_cache_refresh, if_neg (by omega), lookup, lookup]
  by_cases hh : hmcdrv_hash_path q = hmcdrv_hash_path path
  · rw [hh, Function.update_self, find_refresh_list]
  · have hq : path ≠ q := fun h0 => hh (by rw [h0])
    rw [Function.update_of_ne hh, if_neg hq]

end Hmcdrvfs
