import IngressCache.Proofs.Material.Following
import IngressCache.Proofs.Reference.Enquiries

/-!
# Stores on any disk

The store with its directory taken out: what it does with a disk of which nothing is known but that
a file can be written, which may fail, and removed. Where the disk holds a directory and does what
the directory does, the store is the one of that directory.
-/

namespace IngressCache

/-- What becomes of a disk when a file is written or removed. A removal that fails is only
reported. -/
structure Disk (δ : Type) where
  write : δ → String → Bytes → δ × Option IoFault
  remove : δ → String → δ

structure StoreOn (δ : Type) where
  disk : δ
  cached : Table String Material

namespace Disk

variable {δ : Type} (D : Disk δ)

/-- Writes files one after the other, up to the first that cannot be written. -/
def writeParts (d : δ) : List Part → δ × Option IoFault
  | [] => (d, none)
  | p :: ps =>
    match D.write d p.file p.content with
    | (d, some f) => (d, some f)
    | (d, none) => writeParts d ps

def removeFiles (d : δ) (fs : List String) : δ :=
  fs.foldl D.remove d

/-- The disk that is a directory. -/
def directory : Disk Directory where
  write d f content :=
    match d.write f content with
    | .ok d' => (d', none)
    | .error fault => (d, some fault)
  remove d f :=
    match d.remove f with
    | .ok d' => d'
    | .error _ => d

theorem directory_write (d : Directory) (f : String) (content : Bytes) :
    directory.write d f content =
      match d.write f content with
      | .ok d' => (d', none)
      | .error fault => (d, some fault) := rfl

theorem directory_remove (d : Directory) (f : String) :
    directory.remove d f =
      match d.remove f with
      | .ok d' => d'
      | .error _ => d := rfl

/-- The disk holds a directory, and does to it what the directory does. -/
structure Holds (view : δ → Directory) : Prop where
  write : ∀ d f content,
    directory.write (view d) f content = (view (D.write d f content).1, (D.write d f content).2)
  remove : ∀ d f, directory.remove (view d) f = view (D.remove d f)

theorem holds_directory : directory.Holds id :=
  ⟨fun _ _ _ => rfl, fun _ _ => rfl⟩

end Disk

namespace StoreOn
open CertStore

variable {δ : Type} (D : Disk δ) (secrets : Lister Secret) (st : StoreOn δ)

/-! ### Operations -/

def certificate (k : Key) : StoreOn δ :=
  match st.cached.get? k.text with
  | some _ => st
  | none =>
    match rendering secrets k with
    | .error _ => st
    | .ok r =>
      let written := D.writeParts st.disk r.parts
      match written.2 with
      | none => ⟨written.1, st.cached.insert k.text r.material⟩
      | some _ => ⟨written.1, st.cached⟩

def evict (t : String) : StoreOn δ :=
  match st.cached.get? t with
  | none => st
  | some m => ⟨D.removeFiles st.disk m.files, st.cached.erase t⟩

def refresh (t : String) : StoreOn δ :=
  match st.cached.get? t with
  | none => st
  | some m =>
    match renderingOf secrets t with
    | .error _ => st.evict D t
    | .ok r =>
      if r.material = m then st
      else
        let written := D.writeParts st.disk r.parts
        match written.2 with
        | none =>
          ⟨D.removeFiles written.1 (dropped m r.material), st.cached.insert t r.material⟩
        | some _ => evict D ⟨written.1, st.cached⟩ t

def reconcile (t : String) : StoreOn δ :=
  if isListed secrets t then st.refresh D secrets t else st.evict D t

/-- Compares known secrets with the lister, one after the other. -/
def reconcileAll (ts : List String) : StoreOn δ :=
  ts.foldl (reconcile D secrets) st

def follow : StoreCall → StoreOn δ
  | .update t => st.refresh D secrets t
  | .delete t => st.evict D t
  | .resync => st.reconcileAll D secrets st.cached.keys

def addDhParameters (name : String) (content : Bytes) : StoreOn δ :=
  match dhFault? name content with
  | some _ => st
  | none => { st with disk := (D.write st.disk (name ++ ".pem") content).1 }

def enquire (p : Policy) (e : Enquiry) : StoreOn δ :=
  match p.resolve e.query.ns e.query.reference with
  | .error _ => st
  | .ok k =>
    if e.renders then st.certificate D secrets k
    else
      match Resolver.secretContent secrets k DataKey.dhParameters with
      | .error _ => st
      | .ok content => st.addDhParameters D k.fileStem content

end StoreOn

theorem Resolution.store_run {α : Type} (p : Policy) (store : SecretStore) (q : Query)
    (ask : SecretStore → Key → SecretStore × Except Failure α) :
    (run p store q ask).store =
      match p.resolve q.ns q.reference with
      | .error _ => store
      | .ok k => (ask store k).1 := by
  unfold run
  cases p.resolve q.ns q.reference with
  | error f => rfl
  | ok k =>
    simp only
    generalize ask store k = x
    rcases x with ⟨_, _ | _⟩ <;> rfl

/-- The store after an enquiry. -/
def SecretStore.enquire (p : Policy) (secrets : Lister Secret) (st : SecretStore) :
    Enquiry → SecretStore
  | .tls q => (Resolver.tls p secrets st q).store
  | .ca q => (Resolver.ca p secrets st q).store
  | .dh q => (Resolver.dh p secrets st q).store

/-! ### The directory on the disk -/

/-- The store of the directory that a disk holds. -/
def StoreOn.view {δ : Type} (view : δ → Directory) (st : StoreOn δ) : CertStore :=
  ⟨view st.disk, st.cached⟩

namespace Disk.Holds
open CertStore

variable {δ : Type} {D : Disk δ} {view : δ → Directory} (h : D.Holds view)
include h

theorem writeParts_eq (d : δ) (ps : List Part) :
    CertStore.writeParts (view d) ps = (view (D.writeParts d ps).1, (D.writeParts d ps).2) := by
  induction ps generalizing d with
  | nil => rfl
  | cons p ps ih =>
    have hw := h.write d p.file p.content
    rw [directory_write] at hw
    unfold CertStore.writeParts Disk.writeParts
    generalize D.write d p.file p.content = x at hw ⊢
    rcases x with ⟨d', _ | f⟩ <;> cases hd : (view d).write p.file p.content <;>
      simp only [hd, Prod.mk.injEq, reduceCtorEq, and_false, and_true, Option.some.injEq] at hw
    case none.ok =>
      simp only [hw]
      exact ih d'
    case some.error => simp only [hw]

theorem fault_writeParts (d : δ) (ps : List Part) :
    (D.writeParts d ps).2 = (CertStore.writeParts (view d) ps).2 :=
  (congrArg Prod.snd (h.writeParts_eq d ps)).symm

theorem view_writeParts (d : δ) (ps : List Part) :
    (CertStore.writeParts (view d) ps).1 = view (D.writeParts d ps).1 :=
  congrArg Prod.fst (h.writeParts_eq d ps)

theorem removeFiles_eq (d : δ) (fs : List String) :
    (CertStore.removeFiles (view d) fs).1 = view (D.removeFiles d fs) := by
  induction fs generalizing d with
  | nil => rfl
  | cons f fs ih =>
    have hr := h.remove d f
    rw [directory_remove] at hr
    unfold CertStore.removeFiles
    rw [Disk.removeFiles, List.foldl_cons, ← Disk.removeFiles, ← ih, ← hr]
    simp only
    split
    · rename_i hd
      simp only [hd]
    · rename_i hd
      simp only [hd]
    · rename_i hd
      simp only [hd]

variable (secrets : Lister Secret) (st : StoreOn δ)

theorem certificate_eq (k : Key) :
    (CertStore.certificate secrets (st.view view) k).1 =
      (st.certificate D secrets k).view view := by
  have hcase := asked secrets (st.view view) k
  generalize CertStore.certificate secrets (st.view view) k = x at hcase ⊢
  unfold StoreOn.certificate
  cases hcase with
  | known m hm =>
    have hm : st.cached.get? k.text = some m := hm
    simp only [hm]
  | unrendered hm f hr =>
    have hm : st.cached.get? k.text = none := hm
    simp only [hm, hr]
  | written hm r hr hw =>
    have hm : st.cached.get? k.text = none := hm
    have hw : (D.writeParts st.disk r.parts).2 = none := (h.fault_writeParts _ _).trans hw
    simp only [hm, hr, hw]
    exact congrArg (fun d => CertStore.mk d _) (h.view_writeParts _ _)
  | unwritten hm r hr f hw =>
    have hm : st.cached.get? k.text = none := hm
    have hw : (D.writeParts st.disk r.parts).2 = some f := (h.fault_writeParts _ _).trans hw
    simp only [hm, hr, hw]
    exact congrArg (fun d => CertStore.mk d _) (h.view_writeParts _ _)

theorem evict_eq (t : String) :
    (CertStore.evict (st.view view) t).1 = (st.evict D t).view view := by
  unfold CertStore.evict StoreOn.evict
  have hcached : (st.view view).cached = st.cached := rfl
  rw [hcached]
  cases st.cached.get? t with
  | none => rfl
  | some m => exact congrArg (fun d => CertStore.mk d _) (h.removeFiles_eq st.disk m.files)

theorem refresh_eq (t : String) :
    (CertStore.refresh secrets (st.view view) t).1 = (st.refresh D secrets t).view view := by
  have hcase := refreshed secrets (st.view view) t
  generalize (CertStore.refresh secrets (st.view view) t).1 = st' at hcase ⊢
  unfold StoreOn.refresh
  cases hcase with
  | unknown hm =>
    have hm : st.cached.get? t = none := hm
    simp only [hm]
  | gone m hm f hr =>
    have hm : st.cached.get? t = some m := hm
    simp only [hm, hr]
    exact h.evict_eq st t
  | same m hm r hr he =>
    have hm : st.cached.get? t = some m := hm
    simp only [hm, hr, if_pos he]
  | written m hm r hr hne hw =>
    have hm : st.cached.get? t = some m := hm
    have hw : (D.writeParts st.disk r.parts).2 = none := (h.fault_writeParts _ _).trans hw
    have hdisk : (CertStore.writeParts (st.view view).directory r.parts).1 =
        view (D.writeParts st.disk r.parts).1 := h.view_writeParts _ _
    simp only [hm, hr, if_neg hne, hw, hdisk]
    exact congrArg (fun d => CertStore.mk d _) (h.removeFiles_eq _ _)
  | unwritten m hm r hr hne f hw =>
    have hm : st.cached.get? t = some m := hm
    have hw : (D.writeParts st.disk r.parts).2 = some f := (h.fault_writeParts _ _).trans hw
    have hdisk : (CertStore.writeParts (st.view view).directory r.parts).1 =
        view (D.writeParts st.disk r.parts).1 := h.view_writeParts _ _
    simp only [hm, hr, if_neg hne, hw, hdisk]
    exact h.evict_eq ⟨_, st.cached⟩ t

theorem reconcile_eq (t : String) :
    (CertStore.reconcile secrets (st.view view) t).1 = (st.reconcile D secrets t).view view := by
  unfold CertStore.reconcile StoreOn.reconcile
  split
  · exact h.refresh_eq secrets st t
  · exact h.evict_eq st t

theorem reconcileAll_eq (ts : List String) :
    (CertStore.reconcileAll secrets (st.view view) ts).1 =
      (st.reconcileAll D secrets ts).view view := by
  induction ts generalizing st with
  | nil => rfl
  | cons t ts ih =>
    rw [reconcileAll_cons, h.reconcile_eq]
    exact ih _

theorem follow_eq (call : StoreCall) :
    (CertStore.follow secrets (st.view view) call).1 =
      (st.follow D secrets call).view view := by
  cases call with
  | update t => exact h.refresh_eq secrets st t
  | delete t => exact h.evict_eq st t
  | resync => exact h.reconcileAll_eq secrets st _

theorem addDhParameters_eq (name : String) (content : Bytes) :
    (CertStore.addDhParameters (st.view view) name content).1 =
      (st.addDhParameters D name content).view view := by
  unfold CertStore.addDhParameters StoreOn.addDhParameters
  cases dhFault? name content with
  | some f => rfl
  | none =>
    have hw := h.write st.disk (name ++ ".pem") content
    have hdirectory : (st.view view).directory = view st.disk := rfl
    rw [directory_write] at hw
    simp only [hdirectory]
    cases hd : (view st.disk).write (name ++ ".pem") content with
    | error f =>
      rw [hd] at hw
      exact congrArg (fun d => CertStore.mk d _) (congrArg Prod.fst hw)
    | ok d =>
      rw [hd] at hw
      exact congrArg (fun d => CertStore.mk d _) (congrArg Prod.fst hw)

/-- Enquiries of the store of the directory do to it what they do on the disk. -/
theorem enquire_eq (p : Policy) (e : Enquiry) :
    SecretStore.enquire p secrets (.files (st.view view)) e =
      .files ((st.enquire D secrets p e).view view) := by
  unfold StoreOn.enquire
  cases e with
  | tls q =>
    show (Resolver.tls p secrets (.files (st.view view)) q).store = _
    unfold Resolver.tls
    rw [Resolution.store_run, Enquiry.query]
    cases p.resolve q.ns q.reference with
    | error f => rfl
    | ok k => exact congrArg SecretStore.files (h.certificate_eq secrets st k)
  | ca q =>
    show (Resolver.ca p secrets (.files (st.view view)) q).store = _
    unfold Resolver.ca
    rw [Resolution.store_run, Enquiry.query]
    cases p.resolve q.ns q.reference with
    | error f => rfl
    | ok k => exact congrArg SecretStore.files (h.certificate_eq secrets st k)
  | dh q =>
    show (Resolver.dh p secrets (.files (st.view view)) q).store = _
    unfold Resolver.dh
    rw [Resolution.store_run, Enquiry.query]
    cases p.resolve q.ns q.reference with
    | error f => rfl
    | ok k =>
      simp only [Enquiry.renders, Bool.false_eq_true, if_false]
      cases Resolver.secretContent secrets k DataKey.dhParameters with
      | error f => rfl
      | ok content => exact congrArg SecretStore.files (h.addDhParameters_eq st _ content)

end Disk.Holds

end IngressCache
