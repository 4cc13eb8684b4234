set_option autoImplicit false

namespace DependencyAtlas

variable {α β ε : Type}

section Search

variable {p : α → Bool} {f : α → β} {xs : List α}

theorem map_find?_eq_some_iff (determined : ∀ a ∈ xs, ∀ b ∈ xs, p a → p b → f a = f b) {y : β} :
    (xs.find? p).map f = some y ↔ ∃ a ∈ xs, p a ∧ f a = y := by
  rw [Option.map_eq_some_iff]
  constructor
  · intro found
    obtain ⟨a, found, value⟩ := found
    exact ⟨a, List.mem_of_find?_eq_some found, List.find?_some found, value⟩
  · intro listed
    obtain ⟨a, ha, pa, rfl⟩ := listed
    obtain ⟨b, found⟩ := Option.isSome_iff_exists.1 (List.find?_isSome.2 ⟨a, ha, pa⟩)
    exact ⟨b, found,
      determined b (List.mem_of_find?_eq_some found) a ha (List.find?_some found) pa⟩

theorem find?_eq_some_iff_of_unique (unique : ∀ a ∈ xs, ∀ b ∈ xs, p a → p b → a = b) {a : α} :
    xs.find? p = some a ↔ a ∈ xs ∧ p a := by
  have found := map_find?_eq_some_iff (f := id) unique (y := a)
  rw [Option.map_id_fun, id] at found
  simpa using found

end Search

theorem bind_eq_ok_iff {x : Except ε α} {f : α → Except ε β} {b : β} :
    (x >>= f) = .ok b ↔ ∃ a, x = .ok a ∧ f a = .ok b := by
  cases x with
  | error e => simp [bind, Except.bind]
  | ok a => simp [bind, Except.bind]

theorem mapError_eq_ok_iff {x : Except ε α} {f : ε → β} {a : α} :
    x.mapError f = .ok a ↔ x = .ok a := by
  cases x with
  | error e => exact iff_of_false nofun nofun
  | ok b =>
    constructor
    · intro same
      exact congrArg Except.ok (Except.ok.inj same)
    · intro same
      exact congrArg Except.ok (Except.ok.inj same)

theorem mapM_cons_eq_ok_iff {f : α → Except ε β} {x : α} {xs : List α} {ys : List β} :
    (x :: xs).mapM f = .ok ys ↔
      ∃ y rest, f x = .ok y ∧ xs.mapM f = .ok rest ∧ ys = y :: rest := by
  rw [List.mapM_cons, bind_eq_ok_iff]
  constructor
  · intro mapped
    obtain ⟨y, first, mapped⟩ := mapped
    obtain ⟨rest, others, same⟩ := bind_eq_ok_iff.1 mapped
    exact ⟨y, rest, first, others, (Except.ok.inj same).symm⟩
  · intro mapped
    obtain ⟨y, rest, first, others, same⟩ := mapped
    exact ⟨y, first, bind_eq_ok_iff.2 ⟨rest, others, by rw [same]; rfl⟩⟩

theorem exists_mapM_iff {f : α → Except ε β} {xs : List α} :
    (∃ ys, xs.mapM f = .ok ys) ↔ ∀ x ∈ xs, ∃ y, f x = .ok y := by
  induction xs with
  | nil => exact ⟨by simp, fun _ => ⟨[], rfl⟩⟩
  | cons x xs ih =>
    rw [List.forall_mem_cons, ← ih]
    simp only [mapM_cons_eq_ok_iff]
    constructor
    · intro mapped
      obtain ⟨_, y, rest, first, others, -⟩ := mapped
      exact ⟨⟨y, first⟩, rest, others⟩
    · intro each
      obtain ⟨⟨y, first⟩, rest, others⟩ := each
      exact ⟨_, y, rest, first, others, rfl⟩

theorem mem_of_mapM {f : α → Except ε β} {xs : List α} {ys : List β} (mapped : xs.mapM f = .ok ys)
    (y : β) : y ∈ ys ↔ ∃ x ∈ xs, f x = .ok y := by
  induction xs generalizing ys with
  | nil =>
    cases mapped
    simp
  | cons x xs ih =>
    obtain ⟨z, rest, first, others, rfl⟩ := mapM_cons_eq_ok_iff.1 mapped
    rw [List.mem_cons, ih others]
    simp [first, eq_comm]

theorem map_eq_of_mapM {γ : Type} {f : α → Except ε β} {p : α → γ} {q : β → γ} {xs : List α}
    {ys : List β} (each : ∀ x y, f x = .ok y → p x = q y) (mapped : xs.mapM f = .ok ys) :
    xs.map p = ys.map q := by
  induction xs generalizing ys with
  | nil =>
    cases mapped
    rfl
  | cons x xs ih =>
    obtain ⟨y, rest, first, others, rfl⟩ := mapM_cons_eq_ok_iff.1 mapped
    rw [List.map_cons, List.map_cons, each x y first, ih others]

theorem mapM_map_of_back {f : β → Except ε α} {p : α → β} {xs : List α}
    (back : ∀ x ∈ xs, f (p x) = .ok x) : (xs.map p).mapM f = .ok xs := by
  induction xs with
  | nil => rfl
  | cons x xs ih =>
    rw [List.forall_mem_cons] at back
    exact mapM_cons_eq_ok_iff.2 ⟨x, xs, back.1, ih back.2, rfl⟩

theorem mapM_eq_ok_of_imp {f g : α → Except ε β} {xs : List α} {ys : List β}
    (each : ∀ x y, f x = .ok y → g x = .ok y) (mapped : xs.mapM f = .ok ys) :
    xs.mapM g = .ok ys := by
  induction xs generalizing ys with
  | nil => exact mapped
  | cons x xs ih =>
    obtain ⟨y, rest, first, others, same⟩ := mapM_cons_eq_ok_iff.1 mapped
    exact mapM_cons_eq_ok_iff.2 ⟨y, rest, each x y first, ih others, same⟩

theorem bind_eq_error_iff {x : Except ε α} {f : α → Except ε β} {e : ε} :
    (x >>= f) = .error e ↔ x = .error e ∨ ∃ a, x = .ok a ∧ f a = .error e := by
  cases x with
  | error cause => simp [bind, Except.bind]
  | ok a => simp [bind, Except.bind]

theorem mapError_eq_error_iff {x : Except ε α} {f : ε → β} {e : β} :
    x.mapError f = .error e ↔ ∃ cause, x = .error cause ∧ f cause = e := by
  cases x with
  | error cause =>
    constructor
    · intro same
      exact ⟨cause, rfl, Except.error.inj same⟩
    · intro mapped
      obtain ⟨_, same, value⟩ := mapped
      cases same
      exact congrArg Except.error value
  | ok a =>
    refine iff_of_false nofun fun mapped => ?_
    obtain ⟨_, same, -⟩ := mapped
    cases same

theorem exists_split_cons_iff {p : List α → α → Prop} {a : α} {xs : List α} :
    (∃ before x after, a :: xs = before ++ x :: after ∧ p before x) ↔
      p [] a ∨ ∃ before x after, xs = before ++ x :: after ∧ p (a :: before) x := by
  constructor
  · intro found
    obtain ⟨before, x, after, split, holds⟩ := found
    rcases List.cons_eq_append_iff.1 split with ⟨rfl, same⟩ | ⟨rest, rfl, same⟩
    · cases same
      exact .inl holds
    · exact .inr ⟨rest, x, after, same, holds⟩
  · intro found
    rcases found with here | ⟨before, x, after, rfl, holds⟩
    · exact ⟨[], a, xs, rfl, here⟩
    · exact ⟨a :: before, x, after, rfl, holds⟩

-- A result at some place comes from what stands there, and those before it from what is before.
theorem exists_split_mapM_iff {f : α → Except ε β} {xs : List α} {ys : List β}
    {p : List β → β → Prop} (mapped : xs.mapM f = .ok ys) :
    (∃ before y after, ys = before ++ y :: after ∧ p before y) ↔
      ∃ before x after, xs = before ++ x :: after ∧
        ∃ found y, before.mapM f = .ok found ∧ f x = .ok y ∧ p found y := by
  induction xs generalizing ys p with
  | nil =>
    cases mapped
    simp
  | cons x xs ih =>
    obtain ⟨y, rest, first, others, rfl⟩ := mapM_cons_eq_ok_iff.1 mapped
    rw [exists_split_cons_iff, exists_split_cons_iff, ih others]
    simp only [mapM_cons_eq_ok_iff, List.mapM_nil]
    constructor
    · intro found
      rcases found with here | ⟨before, z, after, split, zs, w, earlier, later, holds⟩
      · exact .inl ⟨[], y, rfl, first, here⟩
      · exact .inr ⟨before, z, after, split, y :: zs, w, ⟨y, zs, first, earlier, rfl⟩, later, holds⟩
    · intro found
      rcases found with ⟨zs, w, none, here, holds⟩ |
        ⟨before, z, after, split, _, w, ⟨v, zs, again, earlier, rfl⟩, later, holds⟩
      · cases none
        cases first.symm.trans here
        exact .inl holds
      · cases first.symm.trans again
        exact .inr ⟨before, z, after, split, zs, w, earlier, later, holds⟩

-- The first failure is the failure of the whole.
theorem mapM_eq_error_iff {f : α → Except ε β} {xs : List α} {e : ε} :
    xs.mapM f = .error e ↔ ∃ before x after, xs = before ++ x :: after ∧
      (∀ y ∈ before, ∃ z, f y = .ok z) ∧ f x = .error e := by
  induction xs with
  | nil => simp [pure, Except.pure]
  | cons x xs ih =>
    have rest (y : β) : ((xs.mapM f >>= fun ys => pure (y :: ys)) : Except ε (List β)) = .error e ↔
        xs.mapM f = .error e := by
      rw [bind_eq_error_iff]
      simp [pure, Except.pure]
    rw [List.mapM_cons, bind_eq_error_iff, exists_split_cons_iff]
    simp only [rest, ih, List.forall_mem_cons]
    grind

theorem mapM_eq_error_iff_find? {f : α → Except ε β} {xs : List α} {e : ε} :
    xs.mapM f = .error e ↔ ∃ x, xs.find? (fun y => !(f y).isOk) = some x ∧ f x = .error e := by
  have succeeds (y : α) : (!!(f y).isOk) = true ↔ ∃ z, f y = .ok z := by
    cases f y <;> simp [Except.isOk, Except.toBool]
  rw [mapM_eq_error_iff]
  simp only [List.find?_eq_some_iff_append, succeeds]
  constructor
  · intro failed
    obtain ⟨before, x, after, split, passed, failure⟩ := failed
    exact ⟨x, ⟨by rw [failure]; rfl, before, after, split, passed⟩, failure⟩
  · intro failed
    obtain ⟨x, ⟨-, before, after, split, passed⟩, failure⟩ := failed
    exact ⟨before, x, after, split, passed, failure⟩

variable {σ γ : Type}

theorem foldlM_eq_error_iff {f : σ → α → Except ε σ} {xs : List α} {s : σ} {e : ε} :
    xs.foldlM f s = .error e ↔ ∃ before x after, xs = before ++ x :: after ∧
      ∃ t, before.foldlM f s = .ok t ∧ f t x = .error e := by
  induction xs generalizing s with
  | nil => simp [pure, Except.pure]
  | cons x xs ih =>
    rw [List.foldlM_cons, bind_eq_error_iff, exists_split_cons_iff]
    simp only [ih, List.foldlM_nil, List.foldlM_cons, bind_eq_ok_iff]
    constructor
    · intro failed
      rcases failed with first | ⟨t, first, before, y, after, split, u, filed, later⟩
      · exact .inl ⟨s, rfl, first⟩
      · exact .inr ⟨before, y, after, split, u, ⟨t, first, filed⟩, later⟩
    · intro failed
      rcases failed with ⟨t, same, first⟩ | ⟨before, y, after, split, u, ⟨t, first, filed⟩, later⟩
      · cases same
        exact .inl first
      · exact .inr ⟨t, first, before, y, after, split, u, filed, later⟩

theorem view_foldlM {f : σ → α → Except ε σ} {view : σ → γ}
    (kept : ∀ s x t, f s x = .ok t → view t = view s) {xs : List α} {s t : σ}
    (run : xs.foldlM f s = .ok t) : view t = view s := by
  induction xs generalizing s with
  | nil =>
    cases run
    rfl
  | cons x xs ih =>
    rw [List.foldlM_cons] at run
    obtain ⟨u, first, others⟩ := bind_eq_ok_iff.1 run
    rw [ih others, kept s x u first]

def Agrees (look : σ → String → Option β) (key : β → String) (mark : β → γ) (s : σ) (b : β) : Prop :=
  ∀ known, look s (key b) = some known → mark known = mark b

-- An entry is taken if what is found under its key agrees, and is found itself then if nothing was
-- there.
structure Filing (file : σ → β → Except ε σ) (look : σ → String → Option β) (key : β → String)
    (mark : β → γ) : Prop where
  taken_iff : ∀ s b, (∃ t, file s b = .ok t) ↔ Agrees look key mark s b
  look_taken : ∀ s b t, file s b = .ok t →
    ∀ k, look t k = (look s k).or (if key b = k then some b else none)

namespace Filing

variable {file : σ → β → Except ε σ} {look : σ → String → Option β} {key : β → String}
  {mark : β → γ} {s t u : σ} {entries others : List β}

theorem agrees_after_iff (filing : Filing file look key mark) {first b : β}
    (taken : file s first = .ok t) :
    Agrees look key mark t b ↔
      Agrees look key mark s b ∧ (key first = key b → mark first = mark b) := by
  have head := (filing.taken_iff s first).1 ⟨t, taken⟩
  unfold Agrees
  rw [filing.look_taken s first t taken]
  cases found : look s (key b) with
  | none => by_cases same : key first = key b <;> simp [same]
  | some known =>
    rw [Option.some_or]
    refine ⟨fun agrees => ⟨agrees, fun same => ?_⟩, And.left⟩
    calc mark first = mark known := (head known (same ▸ found)).symm
      _ = mark b := agrees known rfl

-- Entries of one key bear the same mark, those that were filed before the list included.
theorem foldlM_iff (filing : Filing file look key mark) :
    (∃ t, entries.foldlM file s = .ok t) ↔
      (∀ b ∈ entries, Agrees look key mark s b) ∧
        ∀ a ∈ entries, ∀ b ∈ entries, key a = key b → mark a = mark b := by
  induction entries generalizing s with
  | nil => exact ⟨fun _ => by simp, fun _ => ⟨s, rfl⟩⟩
  | cons first rest ih =>
    simp only [List.foldlM_cons, bind_eq_ok_iff]
    constructor
    · intro filed
      obtain ⟨u, t, taken, filed⟩ := filed
      obtain ⟨next, each⟩ := ih.1 ⟨u, filed⟩
      have agrees (b : β) (hb : b ∈ rest) := (filing.agrees_after_iff taken).1 (next b hb)
      constructor
      · exact List.forall_mem_cons.2
          ⟨(filing.taken_iff s first).1 ⟨t, taken⟩, fun b hb => (agrees b hb).1⟩
      · intro a ha b hb same
        rcases List.mem_cons.1 ha with rfl | inA <;> rcases List.mem_cons.1 hb with rfl | inB
        · rfl
        · exact (agrees b inB).2 same
        · exact ((agrees a inA).2 same.symm).symm
        · exact each a inA b inB same
    · intro consistent
      obtain ⟨old, each⟩ := consistent
      obtain ⟨t, taken⟩ := (filing.taken_iff s first).2 (old first List.mem_cons_self)
      have later {b : β} (hb : b ∈ rest) : b ∈ first :: rest := List.mem_cons_of_mem first hb
      have next : ∀ b ∈ rest, Agrees look key mark t b := fun b hb =>
        (filing.agrees_after_iff taken).2
          ⟨old b (later hb), each first List.mem_cons_self b (later hb)⟩
      obtain ⟨u, filed⟩ := ih.2 ⟨next, fun a ha b hb => each a (later ha) b (later hb)⟩
      exact ⟨u, t, taken, filed⟩

theorem look_foldlM (filing : Filing file look key mark) (filed : entries.foldlM file s = .ok t)
    (k : String) : look t k = (look s k).or (entries.find? (key · == k)) := by
  induction entries generalizing s with
  | nil =>
    cases filed
    simp
  | cons first rest ih =>
    rw [List.foldlM_cons] at filed
    obtain ⟨u, taken, filed⟩ := bind_eq_ok_iff.1 filed
    rw [ih filed, filing.look_taken s first u taken, List.find?_cons]
    by_cases same : key first = k <;> cases look s k <;> simp [same, beq_eq_false_iff_ne.2]

theorem isSome_look_foldlM (filing : Filing file look key mark)
    (filed : entries.foldlM file s = .ok t) (k : String) :
    (look t k).isSome ↔ (look s k).isSome ∨ k ∈ entries.map key := by
  rw [filing.look_foldlM filed, Option.isSome_or, Bool.or_eq_true, List.find?_isSome, List.mem_map]
  simp only [beq_iff_eq]

theorem look_eq_of_same (filing : Filing file look key mark)
    (same : ∀ b, b ∈ entries ↔ b ∈ others)
    (determined : ∀ a b, key a = key b → mark a = mark b → a = b)
    (filed : entries.foldlM file s = .ok t) (again : others.foldlM file s = .ok u) (k : String) :
    look t k = look u k := by
  have each := (filing.foldlM_iff.1 ⟨t, filed⟩).2
  have unique : ∀ a ∈ entries, ∀ b ∈ entries, key a == k → key b == k → a = b := by
    intro a ha b hb atKey there
    have keys : key a = key b := (eq_of_beq atKey).trans (eq_of_beq there).symm
    exact determined a b keys (each a ha b hb keys)
  have uniqueToo : ∀ a ∈ others, ∀ b ∈ others, key a == k → key b == k → a = b :=
    fun a ha b hb => unique a ((same a).2 ha) b ((same b).2 hb)
  rw [filing.look_foldlM filed, filing.look_foldlM again]
  congr 1
  refine Option.ext fun b => ?_
  rw [find?_eq_some_iff_of_unique unique, find?_eq_some_iff_of_unique uniqueToo, same]

end Filing

end DependencyAtlas
