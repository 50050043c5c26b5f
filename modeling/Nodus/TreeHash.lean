import Nodus.Masks

/-! `_hash_tree`: the bytes of a directory tree that the installer and the registry client hash. -/

namespace Nodus.TreeHash

open Masks

abbrev Bytes := List UInt8

/-- A directory, with something for each file: what is in it, or its size. -/
inductive Dir (A : Type) where
  | mk (files : List (String × A)) (dirs : List (String × Dir A))

/-- A name that a file or a directory can have. -/
def ValidName (name : String) : Prop := name ≠ "" ∧ name ≠ "." ∧ name ≠ ".." ∧ '/' ∉ name.toList ∧ '\x00' ∉ name.toList

instance (name : String) : Decidable (ValidName name) := inferInstanceAs (Decidable (_ ∧ _))

mutual

/-- Names are valid and different, and in order, as `os.walk` gives them once they are sorted. -/
def Dir.Ordered {A : Type} : Dir A → Prop
  | .mk files dirs =>
      (files.map Prod.fst).Pairwise (· < ·) ∧ (dirs.map Prod.fst).Pairwise (· < ·) ∧ (∀ name ∈ files.map Prod.fst, name ∉ dirs.map Prod.fst) ∧
        (∀ name ∈ files.map Prod.fst ++ dirs.map Prod.fst, ValidName name) ∧ AllOrdered dirs

def AllOrdered {A : Type} : List (String × Dir A) → Prop
  | [] => True
  | d :: dirs => d.2.Ordered ∧ AllOrdered dirs

end

mutual

def Dir.map {A B : Type} (f : A → B) : Dir A → Dir B
  | .mk files dirs => .mk (files.map fun e => (e.1, f e.2)) (mapDirs f dirs)

def mapDirs {A B : Type} (f : A → B) : List (String × Dir A) → List (String × Dir B)
  | [] => []
  | d :: dirs => (d.1, d.2.map f) :: mapDirs f dirs

end

/-- A directory tree. -/
structure Tree (A : Type) where
  root : Dir A
  ordered : root.Ordered

/-- What `digest.update` is called with: a path, or what is in a file. -/
inductive Piece (A : Type) where
  | path (text : String)
  | content (x : A)

/-- `os.path.join` and `os.path.relpath`, from the root of the tree. -/
def joined (relRoot name : String) : String := if relRoot = "." then name else relRoot ++ "/" ++ name

mutual

/-- The loop over `os.walk(path)`: a directory, its files, and then the directories in it. -/
def walk {A : Type} (relRoot : String) : Dir A → List (Piece A)
  | .mk files dirs =>
      .path relRoot :: (files.flatMap fun f => [.path (joined relRoot f.1), .content f.2]) ++ walkDirs relRoot dirs

def walkDirs {A : Type} (relRoot : String) : List (String × Dir A) → List (Piece A)
  | [] => []
  | d :: dirs => walk (joined relRoot d.1) d.2 ++ walkDirs relRoot dirs

end

/-- `text.replace("\\", "/").encode("utf-8")`. -/
def encoded (text : String) : Bytes := (String.ofList (text.toList.map fun c => if c = '\x5c' then '/' else c)).toUTF8.data.toList

def Piece.bytes : Piece Bytes → Bytes
  | .path text => encoded text
  | .content x => x

/-- The bytes that are hashed. -/
def hashedBytes (tree : Dir Bytes) : Bytes := (walk "." tree).flatMap Piece.bytes

/-- `_hash_tree`, with the digest of a text of bytes in hexadecimal. -/
def hashTree (hexdigest : Bytes → String) (tree : Dir Bytes) : String := "sha256:" ++ hexdigest (hashedBytes tree)

/-- The copy of the installer. -/
def installerHashTree (hexdigest : Bytes → String) (tree : Dir Bytes) : String := hashTree hexdigest tree

/-- The copy of the registry client. -/
def registryHashTree (hexdigest : Bytes → String) (tree : Dir Bytes) : String := hashTree hexdigest tree

/-! ### Listings -/

/-- The directories, and the files with their sizes. -/
def sizes (tree : Dir Bytes) : Dir Nat := tree.map List.length

def Piece.mask : Piece Nat → Mask UInt8
  | .path text => (encoded text).map some
  | .content n => List.replicate n none

/-- What the listing fixes of the bytes: those of the paths. -/
def mask (listing : Dir Nat) : Mask UInt8 := (walk "." listing).flatMap Piece.mask

def fileBytes (relRoot : String) (f : String × Bytes) : Bytes := encoded (joined relRoot f.1) ++ f.2

def fileMask (relRoot : String) (f : String × Nat) : Mask UInt8 := (encoded (joined relRoot f.1)).map some ++ List.replicate f.2 none

theorem bytes_mk (relRoot : String) (files : List (String × Bytes)) (dirs : List (String × Dir Bytes)) :
    (walk relRoot (.mk files dirs)).flatMap Piece.bytes =
      encoded relRoot ++ (files.flatMap (fileBytes relRoot) ++ (walkDirs relRoot dirs).flatMap Piece.bytes) := by
  have hfiles : (files.flatMap fun f => [Piece.path (joined relRoot f.1), .content f.2]).flatMap Piece.bytes = files.flatMap (fileBytes relRoot) := by
    rw [List.flatMap_assoc]
    refine List.flatMap_congr fun f _ => ?_
    simp only [List.flatMap_cons, List.flatMap_nil, List.append_nil, Piece.bytes, fileBytes]
  rw [walk, List.cons_append, List.flatMap_cons, List.flatMap_append, hfiles]
  rfl

theorem mask_mk (relRoot : String) (files : List (String × Nat)) (dirs : List (String × Dir Nat)) :
    (walk relRoot (.mk files dirs)).flatMap Piece.mask =
      (encoded relRoot).map some ++ (files.flatMap (fileMask relRoot) ++ (walkDirs relRoot dirs).flatMap Piece.mask) := by
  have hfiles : (files.flatMap fun f => [Piece.path (joined relRoot f.1), .content f.2]).flatMap Piece.mask = files.flatMap (fileMask relRoot) := by
    rw [List.flatMap_assoc]
    refine List.flatMap_congr fun f _ => ?_
    simp only [List.flatMap_cons, List.flatMap_nil, List.append_nil, Piece.mask, fileMask]
  rw [walk, List.cons_append, List.flatMap_cons, List.flatMap_append, hfiles]
  rfl

theorem fits_file (relRoot : String) (f : String × Bytes) : Fits (fileMask relRoot (f.1, f.2.length)) (fileBytes relRoot f) :=
  (fits_letters _).append (fits_holes _)

theorem fits_files (relRoot : String) (files : List (String × Bytes)) :
    Fits ((files.map fun f => (f.1, f.2.length)).flatMap (fileMask relRoot)) (files.flatMap (fileBytes relRoot)) := by
  induction files with
  | nil => exact .nil
  | cons f files ih =>
      rw [List.map_cons, List.flatMap_cons, List.flatMap_cons]
      exact (fits_file relRoot f).append ih

mutual

theorem fits_walk : (relRoot : String) → (tree : Dir Bytes) →
    Fits ((walk relRoot (tree.map List.length)).flatMap Piece.mask) ((walk relRoot tree).flatMap Piece.bytes)
  | relRoot, .mk files dirs => by
      rw [Dir.map, mask_mk, bytes_mk]
      exact (fits_letters _).append ((fits_files relRoot files).append (fits_walkDirs relRoot dirs))

theorem fits_walkDirs : (relRoot : String) → (dirs : List (String × Dir Bytes)) →
    Fits ((walkDirs relRoot (mapDirs List.length dirs)).flatMap Piece.mask) ((walkDirs relRoot dirs).flatMap Piece.bytes)
  | _, [] => .nil
  | relRoot, d :: dirs => by
      rw [mapDirs, walkDirs, walkDirs, List.flatMap_append, List.flatMap_append]
      exact (fits_walk (joined relRoot d.1) d.2).append (fits_walkDirs relRoot dirs)

end

theorem exists_files (relRoot : String) (files : List (String × Nat)) {w : Bytes} (h : Fits (files.flatMap (fileMask relRoot)) w) :
    ∃ files' : List (String × Bytes), (files'.map fun f => (f.1, f.2.length)) = files ∧ files'.flatMap (fileBytes relRoot) = w := by
  induction files generalizing w with
  | nil =>
      cases h
      exact ⟨[], rfl, rfl⟩
  | cons f files ih =>
      rw [List.flatMap_cons] at h
      obtain ⟨u, v, rfl, hu, hv⟩ := h.split
      obtain ⟨name, content, rfl, hname, hcontent⟩ := hu.split
      obtain ⟨files', hsizes, hbytes⟩ := ih hv
      refine ⟨(f.1, content) :: files', ?_, ?_⟩
      · rw [List.map_cons, hsizes, hcontent.length, List.length_replicate]
      · rw [List.flatMap_cons, hbytes, fileBytes, eq_of_fits_letters hname]

mutual

theorem exists_tree : (relRoot : String) → (listing : Dir Nat) → (w : Bytes) → Fits ((walk relRoot listing).flatMap Piece.mask) w →
    ∃ tree : Dir Bytes, tree.map List.length = listing ∧ (walk relRoot tree).flatMap Piece.bytes = w
  | relRoot, .mk files dirs, w, h => by
      rw [mask_mk] at h
      obtain ⟨u, v, rfl, hroot, hv⟩ := h.split
      obtain ⟨v, v', rfl, hfiles, hdirs⟩ := hv.split
      obtain ⟨files', hsizes, hbytes⟩ := exists_files relRoot files hfiles
      obtain ⟨dirs', hsizes', hbytes'⟩ := exists_dirs relRoot dirs v' hdirs
      refine ⟨.mk files' dirs', ?_, ?_⟩
      · rw [Dir.map, hsizes, hsizes']
      · rw [bytes_mk, hbytes, hbytes', eq_of_fits_letters hroot]

theorem exists_dirs : (relRoot : String) → (dirs : List (String × Dir Nat)) → (w : Bytes) →
    Fits ((walkDirs relRoot dirs).flatMap Piece.mask) w →
    ∃ dirs' : List (String × Dir Bytes), mapDirs List.length dirs' = dirs ∧ (walkDirs relRoot dirs').flatMap Piece.bytes = w
  | _, [], w, h => by
      cases h
      exact ⟨[], rfl, rfl⟩
  | relRoot, d :: dirs, w, h => by
      rw [walkDirs, List.flatMap_append] at h
      obtain ⟨u, v, rfl, hu, hv⟩ := h.split
      obtain ⟨tree, hsizes, hbytes⟩ := exists_tree (joined relRoot d.1) d.2 u hu
      obtain ⟨dirs', hsizes', hbytes'⟩ := exists_dirs relRoot dirs v hv
      refine ⟨(d.1, tree) :: dirs', ?_, ?_⟩
      · rw [mapDirs, hsizes, hsizes']
      · rw [walkDirs, List.flatMap_append, hbytes, hbytes']

end

theorem files_injective (relRoot : String) {files files' : List (String × Bytes)}
    (hsizes : (files.map fun f => (f.1, f.2.length)) = files'.map fun f => (f.1, f.2.length))
    (hbytes : files.flatMap (fileBytes relRoot) = files'.flatMap (fileBytes relRoot)) : files = files' := by
  induction files generalizing files' with
  | nil => exact (List.map_eq_nil_iff.mp hsizes.symm).symm
  | cons f files ih =>
      cases files' with
      | nil => cases hsizes
      | cons f' files' =>
          obtain ⟨hfile, hrest⟩ := List.cons.inj hsizes
          obtain ⟨hname, hlength⟩ := Prod.mk.inj hfile
          rw [List.flatMap_cons, List.flatMap_cons] at hbytes
          have hsame : (fileBytes relRoot f).length = (fileBytes relRoot f').length := by
            rw [fileBytes, fileBytes, List.length_append, List.length_append, hname, hlength]
          obtain ⟨hfile', hrest'⟩ := List.append_inj hbytes hsame
          rw [fileBytes, fileBytes, hname] at hfile'
          rw [ih hrest hrest', Prod.ext hname (List.append_cancel_left hfile')]

mutual

theorem walk_injective : (relRoot : String) → (tree tree' : Dir Bytes) → tree.map List.length = tree'.map List.length →
    (walk relRoot tree).flatMap Piece.bytes = (walk relRoot tree').flatMap Piece.bytes → tree = tree'
  | relRoot, .mk files dirs, .mk files' dirs', hsizes, hbytes => by
      rw [Dir.map, Dir.map] at hsizes
      obtain ⟨hfiles, hdirs⟩ := Dir.mk.inj hsizes
      rw [bytes_mk, bytes_mk] at hbytes
      have hlength : (files.flatMap (fileBytes relRoot)).length = (files'.flatMap (fileBytes relRoot)).length := by
        rw [(fits_files relRoot files).length, (fits_files relRoot files').length, hfiles]
      obtain ⟨hfiles', hdirs'⟩ := List.append_inj (List.append_cancel_left hbytes) hlength
      rw [files_injective relRoot hfiles hfiles', walkDirs_injective relRoot dirs dirs' hdirs hdirs']

theorem walkDirs_injective : (relRoot : String) → (dirs dirs' : List (String × Dir Bytes)) → mapDirs List.length dirs = mapDirs List.length dirs' →
    (walkDirs relRoot dirs).flatMap Piece.bytes = (walkDirs relRoot dirs').flatMap Piece.bytes → dirs = dirs'
  | _, [], [], _, _ => rfl
  | _, [], d' :: dirs', hsizes, _ => by
      rw [mapDirs, mapDirs] at hsizes
      cases hsizes
  | _, d :: dirs, [], hsizes, _ => by
      rw [mapDirs, mapDirs] at hsizes
      cases hsizes
  | relRoot, d :: dirs, d' :: dirs', hsizes, hbytes => by
      rw [mapDirs, mapDirs] at hsizes
      obtain ⟨hd, hdirs⟩ := List.cons.inj hsizes
      obtain ⟨hname, htree⟩ := Prod.mk.inj hd
      rw [walkDirs, walkDirs, List.flatMap_append, List.flatMap_append, hname] at hbytes
      have hlength : ((walk (joined relRoot d'.1) d.2).flatMap Piece.bytes).length =
          ((walk (joined relRoot d'.1) d'.2).flatMap Piece.bytes).length := by
        rw [(fits_walk _ d.2).length, (fits_walk _ d'.2).length, htree]
      obtain ⟨htree', hdirs'⟩ := List.append_inj hbytes hlength
      rw [walkDirs_injective relRoot dirs dirs' hdirs hdirs', Prod.ext hname (walk_injective _ d.2 d'.2 htree htree')]

end

theorem mapDirs_names {A B : Type} (f : A → B) (dirs : List (String × Dir A)) : (mapDirs f dirs).map Prod.fst = dirs.map Prod.fst := by
  induction dirs with
  | nil => rw [mapDirs]; rfl
  | cons d dirs ih => rw [mapDirs, List.map_cons, List.map_cons, ih]

mutual

theorem ordered_map {A B : Type} (f : A → B) : (tree : Dir A) → ((tree.map f).Ordered ↔ tree.Ordered)
  | .mk files dirs => by
      have hfiles : (files.map fun e => (e.1, f e.2)).map Prod.fst = files.map Prod.fst := by
        rw [List.map_map]
        rfl
      rw [Dir.map, Dir.Ordered, Dir.Ordered, hfiles, mapDirs_names, allOrdered_map f dirs]

theorem allOrdered_map {A B : Type} (f : A → B) : (dirs : List (String × Dir A)) → (AllOrdered (mapDirs f dirs) ↔ AllOrdered dirs)
  | [] => by rw [mapDirs, AllOrdered, AllOrdered]
  | d :: dirs => by rw [mapDirs, AllOrdered, AllOrdered, ordered_map f d.2, allOrdered_map f dirs]

end

/-- The listing of a tree. -/
def Tree.listing (t : Tree Bytes) : Tree Nat := ⟨sizes t.root, (ordered_map _ _).mpr t.ordered⟩

theorem Tree.ext' {A : Type} {t t' : Tree A} (h : t.root = t'.root) : t = t' := by
  cases t
  cases t'
  cases h
  rfl

theorem fits_mask (t : Tree Bytes) : Fits (mask t.listing.root) (hashedBytes t.root) := fits_walk "." t.root

theorem exists_of_fits {listing : Tree Nat} {w : Bytes} (h : Fits (mask listing.root) w) :
    ∃ t : Tree Bytes, t.listing = listing ∧ hashedBytes t.root = w := by
  obtain ⟨tree, hsizes, hbytes⟩ := exists_tree "." listing.root w h
  exact ⟨⟨tree, (ordered_map List.length tree).mp (hsizes ▸ listing.ordered)⟩, Tree.ext' hsizes, hbytes⟩

theorem hashedBytes_injective {t t' : Tree Bytes} (hlisting : t.listing = t'.listing) (h : hashedBytes t.root = hashedBytes t'.root) : t = t' :=
  Tree.ext' (walk_injective "." t.root t'.root (congrArg Tree.root hlisting) h)

/-- Different trees with these listings give different bytes. -/
def ToldApart (listing listing' : Tree Nat) : Prop :=
  ∀ t t' : Tree Bytes, t.listing = listing → t'.listing = listing' → t ≠ t' → hashedBytes t.root ≠ hashedBytes t'.root

theorem toldApart_iff (listing listing' : Tree Nat) :
    ToldApart listing listing' ↔ listing = listing' ∨ ¬ Agree (mask listing.root) (mask listing'.root) := by
  rw [agree_iff]
  constructor
  · intro h
    by_contra hnot
    obtain ⟨hne, hagree⟩ := not_or.mp hnot
    obtain ⟨w, hfits, hfits'⟩ := not_not.mp hagree
    obtain ⟨t, ht, hbytes⟩ := exists_of_fits hfits
    obtain ⟨t', ht', hbytes'⟩ := exists_of_fits hfits'
    exact h t t' ht ht' (fun heq => hne (ht.symm.trans ((congrArg Tree.listing heq).trans ht'))) (hbytes.trans hbytes'.symm)
  · rintro (rfl | hagree) t t' rfl ht' hne hbytes
    · exact hne (hashedBytes_injective ht'.symm hbytes)
    · exact hagree ⟨hashedBytes t.root, fits_mask t, hbytes ▸ ht' ▸ fits_mask t'⟩

/-- A tree with one file. -/
def oneFile (name : String) (hname : ValidName name) (content : Bytes) : Tree Bytes :=
  ⟨.mk [(name, content)] [], by
    refine ⟨List.pairwise_singleton _ _, List.Pairwise.nil, fun _ _ => List.not_mem_nil, fun n hn => ?_, trivial⟩
    rw [List.map_nil, List.append_nil, List.map_singleton, List.mem_singleton] at hn
    exact hn ▸ hname⟩

/-- A digest that gives a text of bytes back. -/
def plainDigest (w : Bytes) : String := String.ofList (w.map fun b => Char.ofNat b.toNat)

theorem plainDigest_injective : Function.Injective plainDigest := by
  intro w w' h
  have hchars := String.ofList_injective h
  refine List.map_injective_iff.mpr (fun b b' hb => ?_) hchars
  have hsmall : ∀ n < 256, (Char.ofNat n).toNat = n := by decide +kernel
  have hnat := congrArg Char.toNat hb
  rw [hsmall _ b.toNat_lt, hsmall _ b'.toNat_lt] at hnat
  exact UInt8.toNat_inj.mp hnat

end Nodus.TreeHash
