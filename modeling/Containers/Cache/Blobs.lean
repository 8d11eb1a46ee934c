import Containers.Cache.Store

/-!
# Cached blobs are what they claim to be

The lock protocol of `store`. A call in flight relies on the file of one name and no other
(`Frame.Ok.of_same`): a fetch on its temporary file, a `Verify` on the blob that it reads. What a
section changes are the files of a few names, and each of them is its own to change (`Free`): a
temporary file that nobody else has, or a digest whose lock it holds.

* `Effect` – what a section does, said once for all that follows.
* `Guarded` – the invariant: nothing has two owners, and every call of a process that is alive finds
  the file that it relies on as it left it.
* `blobs_genuine` – a blob with the right bytes stays, and no other kind is published.
-/

namespace Containers.Cache

open Go ThreadSystem Sections Function List AList Option GoMap

variable {i : ℕ} {old new : String} {got : Bytes} {t : Temp} {s s' : State Memory Frame}
  {touched : List String} {m₀ : Memory} {proc : ℕ}

/-! ### Names -/

def IsIncoming (name : String) : Prop := "incoming-".toList <+: name.toList

def IsCorrupt (name : String) : Prop := ∃ sha k, IsDigest sha ∧ name = corrupt sha k

variable {name sha : String}

theorem isIncoming_incoming (suffix : String) : IsIncoming (incoming suffix) := by
  rw [IsIncoming, incoming, String.toList_append]
  exact prefix_append _ _

theorem IsIncoming.head (h : IsIncoming name) : name.toList.head? = some 'i' := by
  obtain ⟨rest, hrest⟩ := h
  rw [← hrest]
  rfl

theorem IsDigest.head (h : IsDigest sha) : ∃ c rest, sha.toList = c :: rest ∧ isHex c = true := by
  rcases hchars : sha.toList with _ | ⟨c, rest⟩
  · have hlength := h.1
    rw [hchars] at hlength
    cases hlength
  · exact ⟨c, rest, rfl, h.2 c (hchars ▸ mem_cons_self)⟩

theorem IsIncoming.not_head_hex (h : IsIncoming name) {c : Char} {rest : List Char}
    (hname : name.toList = c :: rest) : isHex c = false := by
  have hhead := h.head
  rw [hname] at hhead
  cases hhead
  rfl

theorem IsIncoming.not_isDigest (h : IsIncoming name) : ¬IsDigest name := by
  intro hdigest
  obtain ⟨c, rest, hname, hhex⟩ := hdigest.head
  rw [h.not_head_hex hname] at hhex
  cases hhex

theorem toList_corrupt (sha : String) (k : ℕ) :
    ∃ rest, (corrupt sha k).toList = sha.toList ++ '.' :: rest := by
  rw [corrupt]
  split_ifs
  · exact ⟨_, by rw [String.toList_append]; rfl⟩
  · exact ⟨_, by rw [String.append_assoc, String.toList_append, String.toList_append]; rfl⟩

theorem IsCorrupt.not_isIncoming (h : IsCorrupt name) : ¬IsIncoming name := by
  intro hincoming
  obtain ⟨sha, k, hsha, rfl⟩ := h
  obtain ⟨c, rest, hchars, hhex⟩ := hsha.head
  obtain ⟨rest', hname⟩ := toList_corrupt sha k
  rw [hchars] at hname
  rw [hincoming.not_head_hex hname] at hhex
  cases hhex

theorem IsCorrupt.not_isDigest (h : IsCorrupt name) : ¬IsDigest name := by
  intro hdigest
  obtain ⟨sha, k, -, rfl⟩ := h
  obtain ⟨rest, hname⟩ := toList_corrupt sha k
  have hdot := hdigest.2 '.' (by rw [hname]; exact mem_append_right _ mem_cons_self)
  exact absurd hdot (by decide)

theorem toNat_lt_of_isHex {c : Char} (h : isHex c = true) : c.toNat < 0x80 := by
  rw [isHex, Bool.or_eq_true, Char.isDigit, Bool.and_eq_true, Bool.and_eq_true] at h
  rcases h with ⟨-, hle⟩ | ⟨-, hle⟩
  · have hval : c.val ≤ 57 := of_decide_eq_true hle
    exact lt_of_le_of_lt (UInt32.le_iff_toNat_le.mp hval) (by decide)
  · have hval : c.val ≤ 'f'.val := of_decide_eq_true hle
    exact lt_of_le_of_lt (UInt32.le_iff_toNat_le.mp hval) (by decide)

theorem isDigest_of_normalizeSHA256 {text : String} (h : normalizeSHA256 text = .ok sha) :
    IsDigest sha := by
  simp only [normalizeSHA256] at h
  split_ifs at h with hlength hhex
  cases h
  have hall : ∀ c ∈ (String.ofList (text.toList.map Char.toLower)).toList, isHex c = true :=
    all_eq_true.mp hhex
  refine ⟨?_, hall⟩
  -- a hexadecimal digit is one byte
  have hbytes : ∀ l : List Char, (∀ c ∈ l, isHex c = true) →
      (l.flatMap String.utf8EncodeChar).length = l.length := by
    intro l hl
    induction l with
    | nil => rfl
    | cons c l ih =>
      rw [flatMap_cons, length_append,
        utf8EncodeChar_of_ascii (toNat_lt_of_isHex (hl c mem_cons_self)),
        ih fun c hc => hl c (mem_cons_of_mem _ hc), length_singleton, length_cons,
        Nat.add_comm]
  rw [← hbytes _ hall]
  exact not_not.mp hlength

/-! ### What a call relies on -/

variable {sha256 : Bytes → String} {root : String} {m m' : Memory} {o : Answer}
  {f g : Frame} {A B F made : List Frame}

def Frame.lock : Frame → Option String
  | .call _ .stat | .call _ .keyLock | .call _ .restat | .call _ .mkdir | .call _ .lockDir |
    .call _ .lockOpen | .call _ .flock | .call _ (.keyUnlock _) => none
  | .call c _ => some (lockName c.sha)
  | _ => none

def Frame.temp : Frame → Option String
  | .call _ (.copy t) | .call _ (.sync t) | .call _ (.close t) | .call _ (.check t) |
    .call _ (.rename t) | .call _ (.discard t _) => some t.name
  | _ => none

/-- The digest of the blob that a `Verify` looks at. -/
def Frame.looks : Frame → Option String
  | .call c (.read _ _) | .call c (.compare _) | .call c (.pick _ _) | .call c (.moveAside _ _) |
    .call c (.remove _) => some c.sha
  | _ => none

def Frame.listed : Frame → List String
  | .sweep _ (.remove names) => names
  | _ => []

/-- The temporary file of a call is in its place. -/
structure Memory.Holds (m : Memory) (t : Temp) : Prop where
  incoming : IsIncoming t.name
  lookup : m.dir.lookup t.name = some t.file

def Memory.Reads (m : Memory) (sha : String) (got : Bytes) : Prop :=
  ∀ bytes, m.blob sha = some bytes → bytes = got

variable (sha256) in
/-- **What holds where a call is.** -/
def Point.Ok (m : Memory) (c : Ctx) : Point → Prop
  | .copy t | .sync t | .close t | .check t => m.Holds t ∧ m.data t.file = t.hashed
  | .rename t => m.Holds t ∧ m.data t.file = t.hashed ∧ sha256 t.hashed = c.sha
  | .discard t _ => m.Holds t
  | .read i got => m.dir.lookup c.sha = some i ∧ got <+: m.data i
  | .compare got => m.Reads c.sha got
  | .pick got _ | .remove got => m.Reads c.sha got ∧ sha256 got ≠ c.sha
  | .moveAside got name => m.Reads c.sha got ∧ sha256 got ≠ c.sha ∧ IsCorrupt name
  | _ => True

variable (sha256) in
def Frame.Ok (m : Memory) : Frame → Prop
  | .call c p => IsDigest c.sha ∧ p.Ok sha256 m c
  | .sweep _ (.remove names) => ∀ name ∈ names, IsIncoming name
  | _ => True

/-- The file of a name is the same. -/
structure Same (m m' : Memory) (name : String) : Prop where
  lookup : m'.dir.lookup name = m.dir.lookup name
  data : ∀ i, m.dir.lookup name = some i → m'.data i = m.data i

theorem Same.blob (h : Same m m' name) : m'.blob name = m.blob name := by
  rw [Memory.blob, Memory.blob, h.lookup]
  rcases hi : m.dir.lookup name with _ | i
  · rfl
  · rw [map_some, map_some, h.data i hi]

theorem Memory.Holds.of_same (h : m.Holds t) (hsame : Same m m' t.name) : m'.Holds t :=
  ⟨h.incoming, hsame.lookup.trans h.lookup⟩

theorem Memory.Reads.of_same (h : m.Reads sha got) (hsame : Same m m' sha) : m'.Reads sha got := by
  intro bytes hbytes
  rw [hsame.blob] at hbytes
  exact h bytes hbytes

/-- **A call relies on one name only.** -/
theorem Frame.Ok.of_same (h : f.Ok sha256 m) (htemp : ∀ name ∈ f.temp, Same m m' name)
    (hlooks : ∀ name ∈ f.looks, Same m m' name) : f.Ok sha256 m' := by
  cases f with
  | call c p =>
    refine ⟨h.1, ?_⟩
    obtain ⟨-, h⟩ := h
    cases p with
    | copy t | sync t | close t | check t =>
      have hsame := htemp t.name rfl
      exact ⟨h.1.of_same hsame, (hsame.data _ h.1.lookup).trans h.2⟩
    | rename t =>
      have hsame := htemp t.name rfl
      exact ⟨h.1.of_same hsame, (hsame.data _ h.1.lookup).trans h.2.1, h.2.2⟩
    | discard t err => exact Memory.Holds.of_same h (htemp t.name rfl)
    | read i got =>
      have hsame := hlooks c.sha rfl
      exact ⟨hsame.lookup.trans h.1, by rw [hsame.data i h.1]; exact h.2⟩
    | compare got => exact Memory.Reads.of_same h (hlooks c.sha rfl)
    | pick | remove | moveAside => exact ⟨h.1.of_same (hlooks c.sha rfl), h.2⟩
    | _ => trivial
  | sweep proc p =>
    cases p with
    | list => trivial
    | remove names => exact h
  | _ => trivial

theorem Same.of_files (hdir : m'.dir = m.dir) (hdata : m'.data = m.data) : Same m m' name :=
  ⟨by rw [hdir], fun i _ => by rw [hdata]⟩

theorem Frame.Ok.of_files (h : f.Ok sha256 m) (hdir : m'.dir = m.dir) (hdata : m'.data = m.data) :
    f.Ok sha256 m' :=
  h.of_same (fun _ _ => .of_files hdir hdata) fun _ _ => .of_files hdir hdata

theorem Frame.Ok.incoming (h : f.Ok sha256 m) (htemp : f.temp = some name) :
    IsIncoming name ∧ name ∈ m.dir := by
  cases f with
  | call c p =>
    obtain ⟨-, h⟩ := h
    cases p with
    | copy t | sync t | close t | check t | rename t =>
      cases htemp
      exact ⟨h.1.incoming, lookup_isSome.mp (by rw [h.1.lookup]; rfl)⟩
    | discard t err =>
      cases htemp
      exact ⟨h.incoming, lookup_isSome.mp (by rw [h.lookup]; rfl)⟩
    | _ => cases htemp
  | _ => cases htemp

theorem Frame.Ok.digest (h : f.Ok sha256 m) (hlooks : f.looks = some sha) :
    IsDigest sha ∧ f.lock = some (lockName sha) := by
  cases f with
  | call c p =>
    cases p with
    | read | compare | pick | moveAside | remove =>
      cases hlooks
      exact ⟨h.1, rfl⟩
    | _ => cases hlooks
  | _ => cases hlooks

/-- No file has two names. -/
structure Memory.WellFormed (m : Memory) : Prop where
  inj : ∀ name name' i, m.dir.lookup name = some i → m.dir.lookup name' = some i → name = name'
  bound : ∀ name i, m.dir.lookup name = some i → i < m.files

theorem Memory.wellFormed_empty : Memory.WellFormed {} where
  inj _ _ _ h := by cases h
  bound _ _ h := by cases h

/-! ### What the operations on files change -/

theorem lookup_create : (m.create new).dir.lookup name = some i ↔
    name = new ∧ i = m.files ∨ name ≠ new ∧ m.dir.lookup name = some i :=
  lookup_insert_iff

theorem lookup_rename {j : ℕ} : (m.rename old new i).dir.lookup name = some j ↔
    name = new ∧ j = i ∨ name ≠ new ∧ name ≠ old ∧ m.dir.lookup name = some j := by
  rw [Memory.rename, lookup_insert_iff, lookup_erase_iff]

theorem lookup_unlink : (m.unlink old).dir.lookup name = some i ↔
    name ≠ old ∧ m.dir.lookup name = some i :=
  lookup_erase_iff

theorem same_create (hwf : m.WellFormed) (hne : name ≠ new) : Same m (m.create new) name := by
  refine ⟨lookup_insert_ne hne, fun i hi => ?_⟩
  exact update_of_ne (hwf.bound name i hi).ne _ _

theorem same_write (bytes : Bytes) (hne : m.dir.lookup name ≠ some i) :
    Same m (m.write i bytes) name := by
  refine ⟨rfl, fun j hj => update_of_ne ?_ _ _⟩
  rintro rfl
  exact hne hj

theorem same_rename (h : name ∉ [old, new]) : Same m (m.rename old new i) name := by
  rw [mem_cons, mem_singleton, not_or] at h
  refine ⟨?_, fun _ _ => rfl⟩
  rw [Memory.rename, lookup_insert_ne h.2, lookup_erase_ne h.1]

theorem same_unlink (hne : name ≠ old) : Same m (m.unlink old) name :=
  ⟨lookup_erase_ne hne, fun _ _ => rfl⟩

theorem Memory.WellFormed.create (hwf : m.WellFormed) (new : String) :
    (m.create new).WellFormed := by
  refine ⟨fun x y i hx hy => ?_, fun x i hx => ?_⟩
  · rcases lookup_create.mp hx with ⟨rfl, rfl⟩ | ⟨-, hx⟩
    · rcases lookup_create.mp hy with ⟨rfl, -⟩ | ⟨-, hy⟩
      · rfl
      · exact absurd (hwf.bound y _ hy) (lt_irrefl _)
    · rcases lookup_create.mp hy with ⟨-, rfl⟩ | ⟨-, hy⟩
      · exact absurd (hwf.bound x _ hx) (lt_irrefl _)
      · exact hwf.inj x y i hx hy
  · rcases lookup_create.mp hx with ⟨-, rfl⟩ | ⟨-, hx⟩
    · exact Nat.lt_succ_self _
    · exact Nat.lt_succ_of_lt (hwf.bound x i hx)

theorem Memory.WellFormed.rename (hwf : m.WellFormed) (hi : m.dir.lookup old = some i)
    (new : String) : (m.rename old new i).WellFormed := by
  refine ⟨fun x y j hx hy => ?_, fun x j hx => ?_⟩
  · rcases lookup_rename.mp hx with ⟨rfl, rfl⟩ | ⟨-, hxold, hx'⟩
    · rcases lookup_rename.mp hy with ⟨rfl, -⟩ | ⟨-, hyold, hy'⟩
      · rfl
      · exact absurd (hwf.inj y old j hy' hi) hyold
    · rcases lookup_rename.mp hy with ⟨-, rfl⟩ | ⟨-, -, hy'⟩
      · exact absurd (hwf.inj x old j hx' hi) hxold
      · exact hwf.inj x y j hx' hy'
  · rcases lookup_rename.mp hx with ⟨-, rfl⟩ | ⟨-, -, hx⟩
    · exact hwf.bound old j hi
    · exact hwf.bound x j hx

theorem Memory.WellFormed.unlink (hwf : m.WellFormed) (old : String) : (m.unlink old).WellFormed :=
  ⟨fun x y i hx hy => hwf.inj x y i (lookup_unlink.mp hx).2 (lookup_unlink.mp hy).2,
    fun x i hx => hwf.bound x i (lookup_unlink.mp hx).2⟩

/-! ### What a section may change -/

/-- **A name whose file is a call's own to change**: a temporary file that nobody else has, a digest
whose lock it holds, or a name for blobs that are moved aside. -/
def Free (m : Memory) (f : Frame) (name : String) : Prop :=
  IsIncoming name ∧ (name ∉ m.dir ∨ f.temp = some name ∨ name ∈ f.listed) ∨
  IsDigest name ∧ f.lock = some (lockName name) ∨ IsCorrupt name

variable (sha256) in
/-- **What a section does to the files**: it changes those of some names that are its own to change,
and a blob only for one with the right bytes, or when it has the wrong ones. -/
structure Touch (m : Memory) (f : Frame) (m' : Memory) (touched : List String) : Prop where
  dead : m'.dead = m.dead
  wf : m'.WellFormed
  same : ∀ name ∉ touched, Same m m' name
  free : ∀ name ∈ touched, Free m f name
  digest : ∀ sha ∈ touched, IsDigest sha →
    (∃ bytes, m'.blob sha = some bytes ∧ sha256 bytes = sha) ∨
    m'.blob sha = none ∧ ∀ bytes, m.blob sha = some bytes → sha256 bytes ≠ sha

/-- What comes of a call has no more than it had. -/
structure Keeps (f g : Frame) : Prop where
  proc : g.proc = f.proc
  temp : ∀ name ∈ g.temp, name ∈ f.temp
  listed : ∀ name ∈ g.listed, name ∈ f.listed

variable (sha256) in
/-- **What a section does.** -/
inductive Effect (m : Memory) (o : Answer) : Frame → Memory → List Frame → Prop
  | change {f g : Frame} {m' : Memory} {touched : List String} (ht : Touch sha256 m f m' touched)
      (hflocks : m'.flocks = m.flocks) (hlock : g.lock = f.lock) (hkeeps : Keeps f g)
      (hok : g.Ok sha256 m') : Effect m o f m' [g]
  | create {c : Ctx} (hfree : incoming o.suffix ∉ m.dir) :
      Effect m o (.call c .create) (m.create (incoming o.suffix))
        [.call c (.copy ⟨incoming o.suffix, m.files, []⟩)]
  | lock {c : Ctx} {p : Point} (hfree : m.flocks (lockName c.sha) = none)
      (hlock : (Frame.call c p).lock = some (lockName c.sha))
        (hkeeps : Keeps (.call c .flock) (.call c p))
      (hok : (Frame.call c p).Ok sha256 m) :
      Effect m o (.call c .flock) (m.lock (lockName c.sha) c.proc) [.call c p]
  | unlock {c : Ctx} (r : Except String String) :
      Effect m o (.call c (.release r)) (m.unlock (lockName c.sha)) [.call c (.keyUnlock r)]
  | list {proc : ℕ} {names : List String} (hnames : ∀ name ∈ names, IsIncoming name) :
      Effect m o (.sweep proc .list) m [.sweep proc (.remove names)]
  | crash (proc : ℕ) : Effect m o (.crash proc) (m.crash proc) []
  | ends (proc : ℕ) (r : Except String String) : Effect m o (.ret proc r) m []

variable {c : Ctx} {p p' : Point}

theorem Keeps.of_none (hproc : g.proc = f.proc) (htemp : g.temp = none) (hlisted : g.listed = []) :
    Keeps f g := by
  refine ⟨hproc, fun name hname => ?_, fun name hname => ?_⟩
  · rw [htemp] at hname
    cases hname
  · rw [hlisted] at hname
    cases hname

theorem Keeps.of_temp (htemp : (Frame.call c p').temp = (Frame.call c p).temp) :
    Keeps (.call c p) (.call c p') := by
  refine ⟨rfl, fun name hname => htemp ▸ hname, fun name hname => ?_⟩
  cases hname

theorem Touch.of_incoming (hdead : m'.dead = m.dead) (hwf : m'.WellFormed)
    (hsame : ∀ name' ≠ name, Same m m' name') (hincoming : IsIncoming name)
    (hfree : name ∉ m.dir ∨ f.temp = some name ∨ name ∈ f.listed) : Touch sha256 m f m' [name] where
  dead := hdead
  wf := hwf
  same name' hname' := hsame name' (ne_of_not_mem_cons hname')
  free := forall_mem_singleton.mpr (.inl ⟨hincoming, hfree⟩)
  digest := forall_mem_singleton.mpr fun hdigest => absurd hdigest hincoming.not_isDigest

section WellFormed

variable (hwf : m.WellFormed)
include hwf

theorem Effect.plain (hdir : m'.dir = m.dir) (hdata : m'.data = m.data)
    (hfiles : m'.files = m.files) (hflocks : m'.flocks = m.flocks) (hdead : m'.dead = m.dead)
    (hlock : g.lock = f.lock) (hkeeps : Keeps f g) (hok : g.Ok sha256 m) :
    Effect sha256 m o f m' [g] := by
  have hwf' : m'.WellFormed :=
    ⟨by rw [hdir]; exact hwf.inj, by rw [hdir, hfiles]; exact hwf.bound⟩
  have ht : Touch sha256 m f m' [] :=
    ⟨hdead, hwf', fun _ _ => .of_files hdir hdata, forall_mem_nil _,
      (forall_mem_nil _)⟩
  exact .change ht hflocks hlock hkeeps (hok.of_files hdir hdata)

theorem Effect.idle (hlock : g.lock = f.lock) (hkeeps : Keeps f g) (hok : g.Ok sha256 m) :
    Effect sha256 m o f m [g] :=
  .plain hwf rfl rfl rfl rfl rfl hlock hkeeps hok

theorem Effect.goOn (hdigest : IsDigest c.sha)
    (hlock : (Frame.call c p').lock = (Frame.call c p).lock) (htemp : (Frame.call c p').temp = none)
    (hok : p'.Ok sha256 m c) :
    Effect sha256 m o (.call c p) m [.call c p'] :=
  .idle hwf hlock (.of_none rfl htemp rfl) ⟨hdigest, hok⟩

/-! ### What the sections do -/

theorem touch_write (h : m.Holds t) (htemp : f.temp = some t.name) (bytes : Bytes) :
    Touch sha256 m f (m.write t.file bytes) [t.name] := by
  refine .of_incoming rfl ⟨hwf.inj, hwf.bound⟩ (fun name' hne => same_write bytes ?_) h.incoming
    (.inr (.inl htemp))
  exact fun hfile => hne (hwf.inj _ _ _ hfile h.lookup)

theorem touch_unlink_incoming (hincoming : IsIncoming name)
    (hfree : f.temp = some name ∨ name ∈ f.listed) : Touch sha256 m f (m.unlink name) [name] :=
  .of_incoming rfl (hwf.unlink name) (fun _ => same_unlink) hincoming (.inr hfree)

theorem touch_publish (h : m.Holds t) (htemp : f.temp = some t.name)
    (hlock : f.lock = some (lockName sha)) (hdigest : IsDigest sha)
    (hsha : sha256 (m.data t.file) = sha) :
    Touch sha256 m f (m.rename t.name sha t.file) [t.name, sha] := by
  refine ⟨rfl, hwf.rename h.lookup sha, fun _ => same_rename, fun name' hname' => ?_,
    fun sha' hsha' hdigest' => ?_⟩
  · rcases mem_pair.mp hname' with rfl | rfl
    · exact .inl ⟨h.incoming, .inr (.inl htemp)⟩
    · exact .inr (.inl ⟨hdigest, hlock⟩)
  · rcases mem_pair.mp hsha' with rfl | rfl
    · exact absurd hdigest' h.incoming.not_isDigest
    · have hlookup : (m.rename t.name sha' t.file).dir.lookup sha' = some t.file :=
        lookup_rename.mpr (.inl ⟨rfl, rfl⟩)
      exact .inl ⟨m.data t.file, by rw [Memory.blob, hlookup]; rfl, hsha⟩

theorem touch_moveAside (hi : m.dir.lookup sha = some i) (hlock : f.lock = some (lockName sha))
    (hdigest : IsDigest sha) (hcorrupt : IsCorrupt name) (hreads : m.Reads sha got)
    (hgot : sha256 got ≠ sha) :
    Touch sha256 m f (m.rename sha name i) [sha, name] := by
  refine ⟨rfl, hwf.rename hi name, fun _ => same_rename, fun name' hname' => ?_,
    fun sha' hsha' hdigest' => ?_⟩
  · rcases mem_pair.mp hname' with rfl | rfl
    · exact .inr (.inl ⟨hdigest, hlock⟩)
    · exact .inr (.inr hcorrupt)
  · rcases mem_pair.mp hsha' with rfl | rfl
    · refine .inr ⟨?_, fun bytes hbytes => hreads bytes hbytes ▸ hgot⟩
      have hne : sha' ≠ name := fun h => hcorrupt.not_isDigest (h ▸ hdigest')
      rw [Memory.blob, Memory.rename, lookup_insert_ne hne, lookup_erase]
      rfl
    · exact absurd hdigest' hcorrupt.not_isDigest

theorem touch_remove (hlock : f.lock = some (lockName sha)) (hdigest : IsDigest sha)
    (hreads : m.Reads sha got) (hgot : sha256 got ≠ sha) :
    Touch sha256 m f (m.unlink sha) [sha] := by
  refine ⟨rfl, hwf.unlink sha, fun _ hname => same_unlink (ne_of_not_mem_cons hname),
    forall_mem_singleton.mpr (.inr (.inl ⟨hdigest, hlock⟩)), forall_mem_singleton.mpr fun _ => ?_⟩
  refine .inr ⟨?_, fun bytes hbytes => hreads bytes hbytes ▸ hgot⟩
  rw [Memory.blob, Memory.unlink, lookup_erase]
  rfl

theorem effect_of_fetchStep (hok : (Frame.call c p).Ok sha256 m)
    (h : fetchStep sha256 root m o c p = some (m', made)) :
    Effect sha256 m o (.call c p) m' made := by
  obtain ⟨hdigest, hok⟩ := hok
  cases p with
  | request =>
    simp only [fetchStep] at h
    repeat' split at h
    all_goals
      cases h
      exact .goOn hwf hdigest rfl rfl trivial
  | create =>
    simp only [fetchStep] at h
    split at h
    · cases h
      exact .goOn hwf hdigest rfl rfl trivial
    · split_ifs at h with hmem
      cases h
      exact .create hmem
  | copy t =>
    simp only [fetchStep] at h
    split at h <;> cases h
    · refine .change (touch_write hwf hok.1 rfl _) rfl rfl (.of_temp rfl)
        ⟨hdigest, ⟨hok.1.incoming, hok.1.lookup⟩, ?_⟩
      rename_i bytes _
      calc update m.data t.file (m.data t.file ++ bytes) t.file
        _ = m.data t.file ++ bytes := update_self _ _ _
        _ = t.hashed ++ bytes := by rw [hok.2]
    · exact .idle hwf rfl (.of_temp rfl) ⟨hdigest, hok⟩
    · exact .change (touch_write hwf hok.1 rfl _) rfl rfl (.of_temp rfl)
        ⟨hdigest, hok.1.incoming, hok.1.lookup⟩
  | sync t | close t =>
    rcases hio : o.io with _ | err
    · simp only [fetchStep, hio] at h
      cases h
      exact .idle hwf rfl (.of_temp rfl) ⟨hdigest, hok⟩
    · simp only [fetchStep, hio] at h
      cases h
      exact .idle hwf rfl (.of_temp rfl) ⟨hdigest, hok.1⟩
  | check t =>
    simp only [fetchStep] at h
    split_ifs at h with hsha hsize <;> cases h
    · exact .idle hwf rfl (.of_temp rfl) ⟨hdigest, hok.1⟩
    · exact .idle hwf rfl (.of_temp rfl) ⟨hdigest, hok.1⟩
    · exact .idle hwf rfl (.of_temp rfl) ⟨hdigest, hok.1, hok.2, not_not.mp hsha⟩
  | rename t =>
    obtain ⟨hholds, hdata, hsha⟩ := hok
    simp only [fetchStep] at h
    split at h <;> cases h
    case h_3 hi =>
      cases hholds.lookup.symm.trans hi
      exact .change (touch_publish hwf hholds rfl rfl hdigest (hdata ▸ hsha)) rfl rfl
        (.of_none rfl rfl rfl) ⟨hdigest, trivial⟩
    all_goals exact .idle hwf rfl (.of_temp rfl) ⟨hdigest, hholds⟩
  | syncDir =>
    cases h
    exact .goOn hwf hdigest rfl rfl trivial
  | discard t err =>
    rw [fetchStep] at h
    split_ifs at h <;> cases h
    · exact .change (touch_unlink_incoming hwf hok.incoming (.inl rfl)) rfl rfl
        (.of_none rfl rfl rfl) ⟨hdigest, trivial⟩
    · exact .goOn hwf hdigest rfl rfl trivial
  | _ => cases h

theorem effect_of_verifyStep (hok : (Frame.call c p).Ok sha256 m)
    (h : verifyStep sha256 root m o c p = some (m', made)) :
    Effect sha256 m o (.call c p) m' made := by
  obtain ⟨hdigest, hok⟩ := hok
  cases p with
  | openBlob =>
    simp only [verifyStep] at h
    split at h <;> cases h
    · exact .goOn hwf hdigest rfl rfl trivial
    · exact .goOn hwf hdigest rfl rfl trivial
    · exact .goOn hwf hdigest rfl rfl ⟨‹_›, nil_prefix⟩
  | read i got =>
    obtain ⟨hi, rest, hrest⟩ := hok
    simp only [verifyStep] at h
    split at h
    · cases h
      exact .goOn hwf hdigest rfl rfl trivial
    · split_ifs at h with hlength <;> cases h
      · refine .goOn hwf hdigest rfl rfl ⟨hi, ?_⟩
        rw [← hrest, drop_left]
        exact (prefix_append_right_inj got).mpr (List.take_prefix _ _)
      · refine .goOn hwf hdigest rfl rfl fun bytes hbytes => ?_
        rw [Memory.blob, hi] at hbytes
        cases hbytes
        -- all of the file has been read
        rw [← hrest, length_append] at hlength
        have hnil : rest = [] := eq_nil_of_length_eq_zero (by omega)
        rw [← hrest, hnil, append_nil]
  | compare got =>
    rw [verifyStep] at h
    split_ifs at h with hgot <;> cases h
    · exact .goOn hwf hdigest rfl rfl ⟨hok, hgot⟩
    · exact .goOn hwf hdigest rfl rfl trivial
  | pick got k =>
    rw [verifyStep] at h
    split_ifs at h <;> cases h
    · exact .goOn hwf hdigest rfl rfl hok
    · exact .goOn hwf hdigest rfl rfl ⟨hok.1, hok.2, c.sha, k, hdigest, rfl⟩
  | moveAside got name =>
    obtain ⟨hreads, hgot, hcorrupt⟩ := hok
    simp only [verifyStep] at h
    split at h <;> cases h
    case h_1 hi =>
      exact .change (touch_moveAside hwf hi rfl hdigest hcorrupt hreads hgot) rfl rfl
        (.of_none rfl rfl rfl) ⟨hdigest, trivial⟩
    · exact .goOn hwf hdigest rfl rfl ⟨hreads, hgot⟩
  | remove got =>
    rw [verifyStep] at h
    split_ifs at h <;> cases h
    · exact .change (touch_remove hwf rfl hdigest hok.1 hok.2) rfl rfl (.of_none rfl rfl rfl)
        ⟨hdigest, trivial⟩
    · exact .goOn hwf hdigest rfl rfl trivial
  | syncAside got removed =>
    cases h
    exact .goOn hwf hdigest rfl rfl trivial
  | _ => cases h

theorem effect_of_callStep (hok : (Frame.call c p).Ok sha256 m)
    (h : callStep sha256 root m o c p = some (m', made)) :
    Effect sha256 m o (.call c p) m' made := by
  have hdigest : IsDigest c.sha := hok.1
  cases p with
  | stat =>
    rw [callStep] at h
    split_ifs at h <;> cases h
    · exact .idle hwf rfl (.of_none rfl rfl rfl) trivial
    · exact .goOn hwf hdigest rfl rfl trivial
  | keyLock =>
    rw [callStep] at h
    split_ifs at h
    cases h
    rcases c with ⟨proc, kind, imageID, entry, sha⟩
    cases kind <;>
      exact .plain hwf rfl rfl rfl rfl rfl rfl (.of_none rfl rfl rfl) ⟨hdigest, trivial⟩
  | restat | recheck =>
    rw [callStep] at h
    split_ifs at h <;> cases h <;> exact .goOn hwf hdigest rfl rfl trivial
  | mkdir | lockDir | lockOpen =>
    rcases hio : o.io with _ | err <;> simp only [callStep, hio] at h <;> cases h <;>
      exact .goOn hwf hdigest rfl rfl trivial
  | flock =>
    simp only [callStep] at h
    split at h
    · cases h
      exact .goOn hwf hdigest rfl rfl trivial
    · split_ifs at h with hfree <;> cases h <;>
        exact .lock hfree rfl (.of_none rfl rfl rfl) ⟨hdigest, trivial⟩
  | release r =>
    cases h
    exact .unlock r
  | keyUnlock r =>
    cases h
    exact .plain hwf rfl rfl rfl rfl rfl rfl (.of_none rfl rfl rfl) trivial
  | openBlob | read | compare | pick | moveAside | remove | syncAside =>
    rw [callStep] at h
    exact effect_of_verifyStep hwf hok h
  | request | create | copy | sync | close | check | rename | syncDir | discard =>
    rw [callStep] at h
    exact effect_of_fetchStep hwf hok h

theorem effect_of_sweepStep {p : SweepPoint} (hok : (Frame.sweep proc p).Ok sha256 m)
    (h : sweepStep m o proc p = (m', made)) :
    Effect sha256 m o (.sweep proc p) m' made := by
  cases p with
  | list =>
    rw [sweepStep] at h
    split_ifs at h <;> cases h
    · refine .list fun name hname => ?_
      exact List.isPrefixOf_iff_prefix.mp (mem_filter.mp hname).2
    · exact .idle hwf rfl (.of_none rfl rfl rfl) trivial
  | remove names =>
    rcases names with _ | ⟨name, names⟩
    · cases h
      exact .idle hwf rfl (.of_none rfl rfl rfl) trivial
    · have hkeeps : Keeps (.sweep proc (.remove (name :: names))) (.sweep proc (.remove names)) :=
        ⟨rfl, fun _ h => h, fun _ => mem_cons_of_mem _⟩
      have hok' : ∀ m, (Frame.sweep proc (.remove names)).Ok sha256 m :=
        fun _ name' hname' => hok name' (mem_cons_of_mem _ hname')
      rw [sweepStep] at h
      split_ifs at h <;> cases h
      · exact .change (touch_unlink_incoming hwf (hok name mem_cons_self)
          (.inr mem_cons_self)) rfl rfl hkeeps (hok' _)
      · exact .idle hwf rfl hkeeps (hok' _)

theorem effect_of_enterStep (proc : ℕ) (kind : Kind) (manifest : Option (List ImageEntry))
    (imageID : String) :
    Effect sha256 m o (.enter proc kind manifest imageID) m
      [enterStep proc kind manifest imageID] := by
  rw [enterStep]
  split
  · exact .idle hwf rfl (.of_none rfl rfl rfl) trivial
  · split
    · exact .idle hwf rfl (.of_none rfl rfl rfl) trivial
    case h_2 hsha =>
      have hdigest := isDigest_of_normalizeSHA256 hsha
      cases kind <;> exact .idle hwf rfl (.of_none rfl rfl rfl) ⟨hdigest, trivial⟩

/-- **What a section does**, of a process that is alive. -/
theorem effect_of_step (hok : f.proc ∉ m.dead → f.Ok sha256 m)
    (h : step sha256 root m o f = some (m', made)) :
    f.proc ∉ m.dead ∧ Effect sha256 m o f m' made := by
  unfold step at h
  split_ifs at h with hdead
  refine ⟨hdead, ?_⟩
  have hok := hok hdead
  cases f with
  | enter proc kind manifest imageID =>
    cases h
    exact effect_of_enterStep hwf proc kind manifest imageID
  | call c p => exact effect_of_callStep hwf hok h
  | sweep proc p => exact effect_of_sweepStep hwf hok (some.inj h)
  | crash proc =>
    cases h
    exact .crash proc
  | ret proc r =>
    cases h
    exact .ends proc r

end WellFormed

/-! ### Who may do what -/

def alive {α : Type} (dead : List ℕ) (hold : Frame → Option α) (f : Frame) : Option α :=
  if f.proc ∈ dead then none else hold f

section Alive

variable {α : Type} {dead : List ℕ} {hold : Frame → Option α} {a : α}

theorem alive_of_mem (hf : f.proc ∈ dead) : alive dead hold f = none := if_pos hf

theorem alive_of_not_mem (hf : f.proc ∉ dead) : alive dead hold f = hold f := if_neg hf

theorem mem_alive : a ∈ F.filterMap (alive dead hold) ↔
    ∃ g ∈ F, g.proc ∉ dead ∧ hold g = some a := by
  rw [mem_filterMap]
  refine exists_congr fun g => and_congr_right fun _ => ?_
  rw [alive]
  split_ifs with hdead
  · simp [hdead]
  · simp [hdead]

theorem nodup_alive_of_fewer (h : ((A ++ f :: B).filterMap (alive dead hold)).Nodup)
    (hproc : g.proc = f.proc) (hfewer : ∀ a ∈ hold g, a ∈ hold f) :
    ((A ++ ([g] ++ B)).filterMap (alive dead hold)).Nodup := by
  have hsub : ([g].filterMap (alive dead hold)).Subperm (alive dead hold f).toList := by
    rw [held_one, alive, alive, hproc]
    split_ifs
    · exact nil_subperm
    · rcases hg : hold g with _ | a
      · exact nil_subperm
      · rw [hfewer a hg]
  exact nodup_of_subperm (held_subperm A B hsub) h

theorem alive_sublist (p : ℕ) (F : List Frame) :
    (F.filterMap (alive (p :: dead) hold)).Sublist (F.filterMap (alive dead hold)) := by
  induction F with
  | nil => exact .slnil
  | cons f F ih =>
    by_cases hf : f.proc ∈ dead
    · rw [filterMap_cons_none (alive_of_mem (mem_cons_of_mem _ hf)),
        filterMap_cons_none (alive_of_mem hf)]
      exact ih
    · rcases eq_or_ne f.proc p with hp | hp
      · rw [filterMap_cons_none (alive_of_mem (mem_cons.mpr (.inl hp)))]
        exact ih.trans ((sublist_cons_self f F).filterMap _)
      · have hf' : f.proc ∉ p :: dead := not_mem_cons_of_ne_of_not_mem hp hf
        rw [filterMap_cons, filterMap_cons, alive_of_not_mem hf, alive_of_not_mem hf']
        rcases hold f with _ | a
        · exact ih
        · exact ih.cons_cons a

end Alive

/-- **Nothing has two owners**: a temporary file belongs to one call and a lock is held by one,
whose process has it, and no construction is to remove the temporary file of a call. -/
structure Exclusive (m : Memory) (F : List Frame) : Prop where
  temps : (F.filterMap (alive m.dead Frame.temp)).Nodup
  locks : (F.filterMap (alive m.dead Frame.lock)).Nodup
  held : ∀ f ∈ F, f.proc ∉ m.dead → ∀ l ∈ f.lock, m.flocks l = some f.proc
  apart : ∀ f ∈ F, f.proc ∉ m.dead → ∀ name ∈ f.listed, ∀ g ∈ F, g.proc ∉ m.dead →
    g.temp ≠ some name

/-- **What is a call's own to change is not relied on by another.** -/
theorem Exclusive.not_relied (h : Exclusive m (A ++ f :: B)) (hf : f.proc ∉ m.dead)
    (hfree : Free m f name) (hg : g ∈ A ++ B) (hg' : g.proc ∉ m.dead) (hok : g.Ok sha256 m) :
    name ∉ g.temp ∧ name ∉ g.looks := by
  constructor
  · intro htemp
    obtain ⟨hincoming, hmem⟩ := hok.incoming htemp
    rcases hfree with ⟨-, hnew | hown | hlisted⟩ | ⟨hdigest, -⟩ | hcorrupt
    · exact hnew hmem
    · refine not_mem_held A B h.temps ?_ (mem_alive.mpr ⟨g, hg, hg', htemp⟩)
      rw [alive_of_not_mem hf, hown]
    · exact h.apart f mem_subject hf name hlisted g (mem_of_mem_rest hg) hg' htemp
    · exact hincoming.not_isDigest hdigest
    · exact hcorrupt.not_isIncoming hincoming
  · intro hlooks
    obtain ⟨hdigest, hlock⟩ := hok.digest hlooks
    rcases hfree with ⟨hincoming, -⟩ | ⟨-, hown⟩ | hcorrupt
    · exact hincoming.not_isDigest hdigest
    · refine not_mem_held A B h.locks ?_ (mem_alive.mpr ⟨g, hg, hg', hlock⟩)
      rw [alive_of_not_mem hf, hown]
    · exact hcorrupt.not_isDigest hdigest

theorem Exclusive.of_keeps (h : Exclusive m (A ++ f :: B)) (hf : f.proc ∉ m.dead)
    (hdead : m'.dead = m.dead) (hkeeps : Keeps f g)
    (hlocks : ((A ++ ([g] ++ B)).filterMap (alive m.dead Frame.lock)).Nodup)
    (hheld : ∀ f ∈ A ++ ([g] ++ B), f.proc ∉ m.dead → ∀ l ∈ f.lock, m'.flocks l = some f.proc) :
    Exclusive m' (A ++ ([g] ++ B)) := by
  have hwas : ∀ x ∈ A ++ ([g] ++ B), x.proc ∉ m.dead → ∃ y ∈ A ++ f :: B, y.proc ∉ m.dead ∧
      (∀ name ∈ x.temp, name ∈ y.temp) ∧ ∀ name ∈ x.listed, name ∈ y.listed := by
    intro x hx hdead
    rcases mem_after.mp hx with hx | hx
    · obtain rfl := mem_singleton.mp hx
      exact ⟨f, mem_subject, hf, hkeeps.temp, hkeeps.listed⟩
    · exact ⟨x, mem_of_mem_rest hx, hdead, fun _ h => h, fun _ h => h⟩
  refine ⟨?_, by rw [hdead]; exact hlocks, by rw [hdead]; exact hheld, ?_⟩
  · rw [hdead]
    exact nodup_alive_of_fewer h.temps hkeeps.proc hkeeps.temp
  · rw [hdead]
    intro x hx hxdead name hname y hy hydead htemp
    obtain ⟨x', hx', hxdead', -, hlisted⟩ := hwas x hx hxdead
    obtain ⟨y', hy', hydead', htemps, -⟩ := hwas y hy hydead
    exact h.apart x' hx' hxdead' name (hlisted name hname) y' hy' hydead' (htemps name htemp)

theorem Exclusive.of_rest (h : Exclusive m (A ++ f :: B)) : Exclusive m (A ++ ([] ++ B)) := by
  have hrest : ∀ g ∈ A ++ ([] ++ B), g ∈ A ++ f :: B := fun g => mem_of_mem_rest
  refine ⟨?_, ?_, fun f hf => h.held f (hrest f hf),
    fun f hf hdead name hname g hg => h.apart f (hrest f hf) hdead name hname g (hrest g hg)⟩
  · exact nodup_of_subperm (held_subperm A B nil_subperm) h.temps
  · exact nodup_of_subperm (held_subperm A B nil_subperm) h.locks

theorem Exclusive.crash (h : Exclusive m F) (p : ℕ) : Exclusive (m.crash p) F := by
  have halive : ∀ {f : Frame}, f.proc ∉ (m.crash p).dead → f.proc ≠ p ∧ f.proc ∉ m.dead :=
    fun hf => ⟨fun hp => hf (hp ▸ mem_cons_self), fun hmem => hf (mem_cons_of_mem _ hmem)⟩
  refine ⟨h.temps.sublist (alive_sublist p F), h.locks.sublist (alive_sublist p F), ?_, ?_⟩
  · intro f hf hdead l hl
    have hheld := h.held f hf (halive hdead).2 l hl
    have hne : m.flocks l ≠ some p := by
      rw [hheld]
      exact fun heq => (halive hdead).1 (some.inj heq)
    exact (if_neg hne).trans hheld
  · intro f hf hdead name hname g hg hg'
    exact h.apart f hf (halive hdead).2 name hname g hg (halive hg').2

/-! ### The invariant -/

def Frame.lists : Frame → Bool
  | .sweep _ .list => true
  | _ => false

def Frame.creates : Frame → Bool
  | .call _ .create => true
  | _ => false

/-- **No construction looks at a directory in which a call has a temporary file**, and no call draws
a name that a construction is about to remove. -/
def Undisturbed : Condition Memory Frame Answer := fun m F f o =>
  (f.lists = true → ∀ g ∈ F, g.proc ∈ m.dead ∨ g.temp = none) ∧
  (f.creates = true → ∀ g ∈ F, g.proc ∈ m.dead ∨ incoming o.suffix ∉ g.listed)

variable (sha256) in
/-- **The invariant of the lock protocol.** -/
structure Guarded (m : Memory) (F : List Frame) : Prop where
  wf : m.WellFormed
  exclusive : Exclusive m F
  ok : ∀ f ∈ F, f.proc ∉ m.dead → f.Ok sha256 m

/-- **The others are not disturbed** by what a call does to its own files. -/
theorem Guarded.others (h : Guarded sha256 m (A ++ f :: B)) (hf : f.proc ∉ m.dead)
    (ht : Touch sha256 m f m' touched) :
    ∀ g ∈ A ++ B, g.proc ∉ m'.dead → g.Ok sha256 m' := by
  intro g hg hdead
  rw [ht.dead] at hdead
  have hok := h.ok g (mem_of_mem_rest hg) hdead
  refine hok.of_same (fun name hname => ht.same name fun hmem => ?_)
    fun name hname => ht.same name fun hmem => ?_
  · exact (h.exclusive.not_relied hf (ht.free name hmem) hg hdead hok).1 hname
  · exact (h.exclusive.not_relied hf (ht.free name hmem) hg hdead hok).2 hname

theorem Guarded.change (h : Guarded sha256 m (A ++ f :: B)) (hf : f.proc ∉ m.dead)
    (ht : Touch sha256 m f m' touched) (hflocks : m'.flocks = m.flocks) (hlock : g.lock = f.lock)
    (hkeeps : Keeps f g) (hok : g.Ok sha256 m') :
    Guarded sha256 m' (A ++ ([g] ++ B)) := by
  refine ⟨ht.wf, h.exclusive.of_keeps hf ht.dead hkeeps ?_ ?_, ?_⟩
  · exact nodup_alive_of_fewer h.exclusive.locks hkeeps.proc fun l hl => hlock ▸ hl
  · rw [hflocks]
    refine forall_mem_next (forall_mem_others h.exclusive.held) fun _ l hl => ?_
    rw [hkeeps.proc]
    exact h.exclusive.held f mem_subject hf l (hlock ▸ hl)
  · exact forall_mem_next (h.others hf ht) fun _ => hok

theorem Guarded.create {suffix : String} (h : Guarded sha256 m (A ++ Frame.call c .create :: B))
    (hf : c.proc ∉ m.dead)
    (hlisted : ∀ g ∈ A ++ Frame.call c .create :: B, g.proc ∈ m.dead ∨ incoming suffix ∉ g.listed)
    (hnew : incoming suffix ∉ m.dir) :
    Guarded sha256 (m.create (incoming suffix))
      (A ++ ([Frame.call c (.copy ⟨incoming suffix, m.files, []⟩)] ++ B)) := by
  have ht : Touch sha256 m (.call c .create) (m.create (incoming suffix)) [incoming suffix] :=
    .of_incoming rfl (h.wf.create _) (fun _ => same_create h.wf)
      (isIncoming_incoming suffix) (.inl hnew)
  have hdigest : IsDigest c.sha := (h.ok _ mem_subject hf).1
  have hother : ∀ g ∈ A ++ B, g.proc ∉ m.dead → g.temp ≠ some (incoming suffix) :=
    fun g hg hdead htemp => hnew ((h.ok g (mem_of_mem_rest hg) hdead).incoming htemp).2
  refine ⟨ht.wf, ⟨?_, ?_, ?_, ?_⟩, ?_⟩
  · refine nodup_held_new A B h.exclusive.temps (alive_of_not_mem hf) fun hmem => ?_
    obtain ⟨g, hg, hdead, htemp⟩ := mem_alive.mp hmem
    exact hother g hg hdead htemp
  · exact nodup_alive_of_fewer h.exclusive.locks rfl fun _ hl => hl
  · exact forall_mem_next (forall_mem_others h.exclusive.held)
      (h.exclusive.held (.call c .create) mem_subject)
  · refine forall_mem_next (fun x hx hdead name hname => ?_) fun _ name hname => by cases hname
    refine forall_mem_next (forall_mem_others
      (h.exclusive.apart x (mem_of_mem_rest hx) hdead name hname)) ?_
    rintro - htemp
    cases htemp
    exact (hlisted x (mem_of_mem_rest hx)).elim hdead fun hnot => hnot hname
  · exact forall_mem_next (h.others hf ht) fun _ =>
      ⟨hdigest, ⟨isIncoming_incoming suffix, lookup_insert _⟩, update_self _ _ _⟩

theorem Guarded.lock (h : Guarded sha256 m (A ++ Frame.call c .flock :: B)) (hf : c.proc ∉ m.dead)
    (hfree : m.flocks (lockName c.sha) = none)
    (hlock : (Frame.call c p).lock = some (lockName c.sha))
    (hkeeps : Keeps (.call c .flock) (.call c p)) (hok : (Frame.call c p).Ok sha256 m) :
    Guarded sha256 (m.lock (lockName c.sha) c.proc) (A ++ ([Frame.call c p] ++ B)) := by
  have hother : ∀ g ∈ A ++ B, g.proc ∉ m.dead → ∀ l ∈ g.lock, l ≠ lockName c.sha := by
    rintro g hg hdead l hl rfl
    have hheld := h.exclusive.held g (mem_of_mem_rest hg) hdead _ hl
    rw [hfree] at hheld
    cases hheld
  refine ⟨⟨h.wf.inj, h.wf.bound⟩, h.exclusive.of_keeps hf rfl hkeeps ?_ ?_, ?_⟩
  · refine nodup_held_new A B h.exclusive.locks ((alive_of_not_mem hf).trans hlock) ?_
    intro hmem
    obtain ⟨g, hg, hdead, hl⟩ := mem_alive.mp hmem
    exact hother g hg hdead _ hl rfl
  · refine forall_mem_next (fun g hg hdead l hl => ?_) fun _ l hl => ?_
    · exact (update_of_ne (hother g hg hdead l hl) _ _).trans
        (h.exclusive.held g (mem_of_mem_rest hg) hdead l hl)
    · rw [hlock] at hl
      cases hl
      exact update_self _ _ _
  · exact forall_mem_next (fun g hg hdead =>
      (h.ok g (mem_of_mem_rest hg) hdead).of_files rfl rfl) fun _ => hok.of_files rfl rfl

theorem Guarded.unlock {r : Except String String}
    (h : Guarded sha256 m (A ++ Frame.call c (.release r) :: B)) (hf : c.proc ∉ m.dead) :
    Guarded sha256 (m.unlock (lockName c.sha)) (A ++ ([Frame.call c (.keyUnlock r)] ++ B)) := by
  refine ⟨⟨h.wf.inj, h.wf.bound⟩, h.exclusive.of_keeps hf rfl (.of_none rfl rfl rfl) ?_ ?_, ?_⟩
  · exact nodup_alive_of_fewer h.exclusive.locks rfl fun l hl => by cases hl
  · refine forall_mem_next (fun g hg hdead l hl => ?_) fun _ l hl => by cases hl
    have hne : l ≠ lockName c.sha := by
      rintro rfl
      exact not_mem_held A B h.exclusive.locks (alive_of_not_mem hf)
        (mem_alive.mpr ⟨g, hg, hdead, hl⟩)
    exact (update_of_ne hne _ _).trans
      (h.exclusive.held g (mem_of_mem_rest hg) hdead l hl)
  · exact forall_mem_next (fun g hg hdead =>
      (h.ok g (mem_of_mem_rest hg) hdead).of_files rfl rfl)
      fun _ => ⟨(h.ok _ mem_subject hf).1, trivial⟩

theorem Guarded.list {names : List String} (h : Guarded sha256 m (A ++ Frame.sweep proc .list :: B))
    (hidle : ∀ g ∈ A ++ Frame.sweep proc .list :: B, g.proc ∈ m.dead ∨ g.temp = none)
    (hnames : ∀ name ∈ names, IsIncoming name) :
    Guarded sha256 m (A ++ ([Frame.sweep proc (.remove names)] ++ B)) := by
  refine ⟨h.wf, ⟨?_, ?_, ?_, ?_⟩, ?_⟩
  · exact nodup_alive_of_fewer h.exclusive.temps rfl fun _ hl => hl
  · exact nodup_alive_of_fewer h.exclusive.locks rfl fun _ hl => hl
  · exact forall_mem_next (forall_mem_others h.exclusive.held)
      fun _ l hl => by cases hl
  · intro x _ _ name _
    refine forall_mem_next (fun y hy hdead htemp => ?_) fun _ htemp => by cases htemp
    -- no call that is alive has a temporary file
    rcases hidle y (mem_of_mem_rest hy) with hdead' | hnone
    · exact hdead hdead'
    · rw [hnone] at htemp
      cases htemp
  · exact forall_mem_next (forall_mem_others h.ok) fun _ => hnames

/-- **Every section keeps the invariant**, unless a construction disturbs. -/
theorem guarded_step (h : Guarded sha256 m (A ++ f :: B)) (hK : Undisturbed m (A ++ f :: B) f o)
    (hstep : step sha256 root m o f = some (m', made)) : Guarded sha256 m' (A ++ (made ++ B)) := by
  obtain ⟨hf, heffect⟩ := effect_of_step h.wf (h.ok f mem_subject) hstep
  cases heffect with
  | change ht hflocks hlock hkeeps hok => exact h.change hf ht hflocks hlock hkeeps hok
  | create hnew => exact h.create hf (hK.2 rfl) hnew
  | lock hfree hlock hkeeps hok => exact h.lock hf hfree hlock hkeeps hok
  | unlock r => exact h.unlock hf
  | list hnames => exact h.list (hK.1 rfl) hnames
  | crash proc =>
    refine ⟨⟨h.wf.inj, h.wf.bound⟩, h.exclusive.of_rest.crash proc, fun g hg hdead => ?_⟩
    have hok := h.ok g (mem_of_mem_rest hg) fun hmem => hdead (mem_cons_of_mem _ hmem)
    exact hok.of_files rfl rfl
  | ends proc r =>
    exact ⟨h.wf, h.exclusive.of_rest, forall_mem_others h.ok⟩

theorem Exclusive.call (h : Exclusive m F) (proc : ℕ) (c : Call) :
    Exclusive m (F ++ [c.frame proc]) := by
  have hlock : (c.frame proc).lock = none := by cases c <;> rfl
  have htemp : (c.frame proc).temp = none := by cases c <;> rfl
  have hlisted : (c.frame proc).listed = [] := by cases c <;> rfl
  have hnone : ∀ {hold : Frame → Option String}, hold (c.frame proc) = none →
      alive m.dead hold (c.frame proc) = none := by
    intro hold hnone
    rw [alive, hnone, ite_self]
  refine ⟨?_, ?_, ?_, ?_⟩
  · rw [held_call _ _ F (hnone htemp)]
    exact h.temps
  · rw [held_call _ _ F (hnone hlock)]
    exact h.locks
  · refine forall_mem_call h.held fun _ l hl => ?_
    rw [hlock] at hl
    cases hl
  · refine forall_mem_call (fun f hf hdead name hname => ?_) fun _ name hname => ?_
    · refine forall_mem_call (h.apart f hf hdead name hname) fun _ => ?_
      rw [htemp]
      exact (some_ne_none name).symm
    · rw [hlisted] at hname
      cases hname

theorem Guarded.call (h : Guarded sha256 m F) (proc : ℕ) (c : Call) :
    Guarded sha256 m (F ++ [c.frame proc]) := by
  refine ⟨h.wf, h.exclusive.call proc c, forall_mem_call h.ok fun _ => ?_⟩
  cases c <;> exact trivial

theorem guarded_start (hm₀ : m₀.WellFormed) : Guarded sha256 m₀ [] :=
  ⟨hm₀, ⟨.nil, .nil, by simp, by simp⟩, by simp⟩

/-- **The invariant holds in every interleaving** in which no construction disturbs. -/
theorem guarded_of_reached (hm₀ : m₀.WellFormed)
    (h : (store sha256 root).Reached Undisturbed m₀ s) : Guarded sha256 s.memory s.frames := by
  refine h.induction (guarded_start hm₀) (fun m F c hm => hm.call c.1 c.2) ?_
  intro m A f B o m' made hm hK hstep
  exact guarded_step hm hK hstep

/-! ### What becomes of the blobs -/

variable (sha256) in
def Memory.Genuine (m : Memory) : Prop :=
  ∀ sha bytes, IsDigest sha → m.blob sha = some bytes → sha256 bytes = sha

/-- **What a section does to a blob**: nothing, or it puts one with the right bytes there, or it
takes one with the wrong bytes away. -/
theorem blob_of_effect (hwf : m.WellFormed) (h : Effect sha256 m o f m' made)
    (hsha : IsDigest sha) :
    m'.blob sha = m.blob sha ∨ (∃ bytes, m'.blob sha = some bytes ∧ sha256 bytes = sha) ∨
    m'.blob sha = none ∧ ∀ bytes, m.blob sha = some bytes → sha256 bytes ≠ sha := by
  cases h with
  | @change _ _ _ touched ht =>
    by_cases hmem : sha ∈ touched
    · exact .inr (ht.digest sha hmem hsha)
    · exact .inl (ht.same sha hmem).blob
  | create hnew =>
    have hne : sha ≠ incoming o.suffix :=
      fun heq => (isIncoming_incoming o.suffix).not_isDigest (heq ▸ hsha)
    exact .inl (same_create hwf hne).blob
  | lock | unlock | list | crash | ends => exact .inl rfl

theorem Memory.Genuine.of_effect (hm : m.Genuine sha256) (hwf : m.WellFormed)
    (h : Effect sha256 m o f m' made) : m'.Genuine sha256 := by
  intro sha bytes hsha hbytes
  rcases blob_of_effect hwf h hsha with hsame | ⟨bytes', hbytes', hhash⟩ | ⟨hnone, -⟩
  · exact hm sha bytes hsha (hsame ▸ hbytes)
  · rw [hbytes'] at hbytes
    cases hbytes
    exact hhash
  · rw [hnone] at hbytes
    cases hbytes

theorem blob_kept (hinj : Injective sha256) {bytes : Bytes} (hsha : IsDigest sha)
    (hhash : sha256 bytes = sha) (hblob : m.blob sha = some bytes) (hwf : m.WellFormed)
    (h : Effect sha256 m o f m' made) : m'.blob sha = some bytes := by
  rcases blob_of_effect hwf h hsha with hsame | ⟨bytes', hbytes', hhash'⟩ | ⟨-, hwrong⟩
  · rw [hsame, hblob]
  · rw [hbytes', hinj (hhash'.trans hhash.symm)]
  · exact absurd hhash (hwrong bytes hblob)

def Frame.constructs : Frame → Bool
  | .sweep _ _ => true
  | _ => false

/-- The calls are `Get`, `Verify` and `Refresh`; processes may die. -/
def Operations : Condition Memory Frame Answer := fun _ F _ _ =>
  ∀ g ∈ F, g.constructs = false

instance (m : Memory) (F : List Frame) (f : Frame) (o : Answer) : Decidable (Operations m F f o) :=
  inferInstanceAs (Decidable (∀ g ∈ F, g.constructs = false))

theorem undisturbed_of_operations (h : Operations m F f o) (hf : f ∈ F) : Undisturbed m F f o := by
  refine ⟨fun hlists => ?_, fun _ g hg => .inr ?_⟩
  · have hnot := h f hf
    cases f with
    | sweep proc p => cases hnot
    | _ => cases hlists
  · have hnot := h g hg
    cases g with
    | sweep proc p => cases hnot
    | _ => exact not_mem_nil

/-- **The invariant holds from any state on** in which it holds, as long as nothing is
constructed. -/
theorem guarded_of_operations (hs : Guarded sha256 s.memory s.frames)
    (h : (store sha256 root).system.Reach (Meets Operations) s s') :
    Guarded sha256 s'.memory s'.frames :=
  reach_induction hs (fun _ _ c hm => hm.call c.1 c.2)
    (fun _ _ _ _ _ _ _ hm hK hstep =>
      guarded_step hm (undisturbed_of_operations hK mem_subject) hstep) h

theorem files_of_operations {P : Memory → Prop} (hs : Guarded sha256 s.memory s.frames)
    (hP : ∀ m o f m' made, m.WellFormed → Effect sha256 m o f m' made → P m → P m')
    (h : (store sha256 root).system.Reach (Meets Operations) s s') (hPs : P s.memory) :
    P s'.memory := by
  have hinv : Guarded sha256 s'.memory s'.frames ∧ P s'.memory := by
    refine reach_induction (I := fun m F => Guarded sha256 m F ∧ P m) ⟨hs, hPs⟩ ?_ ?_ h
    · exact fun _ _ c hm => ⟨hm.1.call c.1 c.2, hm.2⟩
    · intro m A f B o m' made hm hK hstep
      obtain ⟨-, heffect⟩ := effect_of_step hm.1.wf (hm.1.ok f mem_subject) hstep
      exact ⟨guarded_step hm.1 (undisturbed_of_operations hK mem_subject) hstep,
        hP m o f m' made hm.1.wf heffect hm.2⟩
  exact hinv.2

/-- **Cached blobs are what they claim to be.** In every interleaving of `Get`, `Verify` and
`Refresh` by any processes, which may die at any time, whatever the downloads deliver: if the blobs
are genuine at first they are so ever after; a blob with the right bytes stays where it is; and a
`Verify` that is about to move a blob aside, or to remove it, does so to one with the wrong
bytes. -/
theorem blobs_genuine {m₀ : Memory} {s : State Memory Frame} (hinj : Injective sha256)
    (hm₀ : m₀.WellFormed) (h : (store sha256 root).Reached Operations m₀ s) :
    (m₀.Genuine sha256 → s.memory.Genuine sha256) ∧
    (∀ s', (store sha256 root).system.Reach (Meets Operations) s s' →
      ∀ sha bytes, IsDigest sha → s.memory.blob sha = some bytes → sha256 bytes = sha →
        s'.memory.blob sha = some bytes) ∧
    ∀ c got, (∃ name, .call c (.moveAside got name) ∈ s.frames) ∨ .call c (.remove got) ∈ s.frames →
      c.proc ∉ s.memory.dead → ∀ bytes, s.memory.blob c.sha = some bytes →
      sha256 bytes ≠ c.sha := by
  have hguarded := guarded_of_operations (guarded_start hm₀) h
  refine ⟨fun hgenuine => ?_, fun s' hs' sha bytes hsha hblob hhash => ?_,
    fun c got hmem hdead => ?_⟩
  · exact files_of_operations (guarded_start hm₀) (fun _ _ _ _ _ hwf he hm => hm.of_effect hwf he) h
      hgenuine
  · exact files_of_operations (P := fun m => m.blob sha = some bytes) hguarded
      (fun _ _ _ _ _ hwf he hm => blob_kept hinj hsha hhash hm hwf he) hs' hblob
  · have hwrong : s.memory.Reads c.sha got ∧ sha256 got ≠ c.sha := by
      rcases hmem with ⟨name, hmem⟩ | hmem
      · have hok := (hguarded.ok _ hmem hdead).2
        exact ⟨hok.1, hok.2.1⟩
      · exact (hguarded.ok _ hmem hdead).2
    exact fun bytes hbytes => hwrong.1 bytes hbytes ▸ hwrong.2

def zeros : String := String.ofList (replicate 64 '0')

theorem toList_zeros : zeros.toList = replicate 64 '0' := String.toList_ofList

def toySum (bytes : Bytes) : String :=
  if bytes = [] then zeros
  else String.ofList (replicate (65 + Encodable.encode (bytes.map UInt8.toNat)) 'x')

theorem toySum_injective : Injective toySum := by
  have hbytes : Injective fun bytes : Bytes => Encodable.encode (bytes.map UInt8.toNat) :=
    Encodable.encode_injective.comp (map_injective_iff.mpr fun _ _ => UInt8.toNat_inj.mp)
  have hlength : ∀ bytes, (toySum bytes).toList.length =
      if bytes = [] then 64 else 65 + Encodable.encode (bytes.map UInt8.toNat) := by
    intro bytes
    rw [toySum]
    split_ifs
    · rw [toList_zeros, length_replicate]
    · rw [String.toList_ofList, length_replicate]
  intro bytes bytes' heq
  have heq := congrArg (fun s => s.toList.length) heq
  simp only [hlength] at heq
  split_ifs at heq with hnil hnil' hnil'
  · rw [hnil, hnil']
  · omega
  · omega
  · exact hbytes (by exact Nat.add_left_cancel heq)

/-- A `Get` that is left alone, until it has returned, and a `Refresh` of another process that has
its temporary file. -/
def getZeros : List (Action (ℕ × Answer) (ℕ × Call)) :=
  .call (0, .enter .get (some [{ id := "img", sha256 := zeros }]) "img") ::
    List.append (replicate 20 (.step 0 (0, {})))
      (.call (1, .enter .refresh (some [{ id := "img", sha256 := zeros }]) "img") ::
        replicate 10 (.step 1 (0, {})))

/-- A blob that was fetched stays, whatever comes of the `Refresh`. -/
theorem blobs_genuine_fetched : ∃ s, (store toySum "/c").Reached Operations {} s ∧
    s.memory.blob zeros = some [] ∧ s.memory.dir.keys.length = 2 ∧
    ∀ s', (store toySum "/c").system.Reach (Meets Operations) s s' →
      s'.memory.blob zeros = some [] := by
  obtain ⟨s, hs, hblob, htwo⟩ : ∃ s, (store toySum "/c").Reached Operations {} s ∧
      s.memory.blob zeros = some [] ∧ s.memory.dir.keys.length = 2 :=
    Reached.of_run getZeros (by decide +kernel)
  have hzeros : IsDigest zeros := ⟨by decide +kernel, all_eq_true.mp (by decide +kernel)⟩
  exact ⟨s, hs, hblob, htwo, fun s' hs' =>
    (blobs_genuine toySum_injective Memory.wellFormed_empty hs).2.1 s' hs' zeros
    [] hzeros hblob rfl⟩

end Containers.Cache
