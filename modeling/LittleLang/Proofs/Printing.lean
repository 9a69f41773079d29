import LittleLang.Document

/-!
# Printed documents

The text of a document says which document it is, and where it ends: no two documents are printed
the same, whatever follows them (`Determined`). The first character of a document tells its form, a
comma says that a list or an object goes on, and inside of a text quotes are escaped, so that the
next one ends it. -/

namespace LittleLang.Document

/-! ## Texts -/

def isSpecial (c : Char) : Bool :=
  c = '\x22' || c = '\\' || decide (c.toNat < 0x20)

theorem escaped_of_plain {c : Char} (h : isSpecial c = false) :
    escaped c = [c] ∧ c ≠ '\\' ∧ c ≠ '\x22' := by
  simp only [isSpecial, Bool.or_eq_false_iff, decide_eq_false_iff_not] at h
  obtain ⟨⟨hquote, hslash⟩, hlow⟩ := h
  have hne (d : Char) (hd : d.toNat < 0x20) : c ≠ d := fun he => hlow (he ▸ hd)
  unfold escaped
  rw [if_neg (by simp [hquote, hslash]), if_neg (hne '\n' (by decide)),
    if_neg (hne '\r' (by decide)), if_neg (hne '\t' (by decide)), if_neg (hne '\x08' (by decide)),
    if_neg (hne '\x0c' (by decide)), if_neg hlow]
  exact ⟨rfl, hslash, hquote⟩

def specials : List Char :=
  '\x22' :: '\\' :: (List.range 0x20).map Char.ofNat

theorem mem_specials {c : Char} (h : isSpecial c = true) : c ∈ specials := by
  simp only [isSpecial, Bool.or_eq_true, decide_eq_true_eq] at h
  rcases h with (rfl | rfl) | h
  · simp [specials]
  · simp [specials]
  · have hmem : c ∈ (List.range 0x20).map Char.ofNat :=
      List.mem_map.mpr ⟨c.toNat, List.mem_range.mpr h, Char.ofNat_toNat c⟩
    simp [specials, hmem]

/-- The escapes all start with a backslash, and the character after it tells how long they are. -/
theorem escaped_specials : ∀ c ∈ specials, (escaped c).head? = some '\\' ∧ 2 ≤ (escaped c).length ∧
    ∀ d ∈ specials, (escaped c).take 2 = (escaped d).take 2 →
      (escaped c).length = (escaped d).length ∧ (escaped c = escaped d → c = d) := by
  -- Over the members of the list: to decide a statement on all characters would take too long.
  have hall : specials.all (fun c => (escaped c).head? = some '\\' ∧ 2 ≤ (escaped c).length ∧
      specials.all (fun d => (escaped c).take 2 = (escaped d).take 2 →
        (escaped c).length = (escaped d).length ∧ (escaped c = escaped d → c = d)) = true) = true := by
    decide +kernel
  simpa only [List.all_eq_true, decide_eq_true_eq] using hall

theorem escaped_of_special {c : Char} (h : isSpecial c = true) : ∃ cs, escaped c = '\\' :: cs := by
  have hhead := (escaped_specials c (mem_specials h)).1
  cases he : escaped c with
  | nil =>
    rw [he] at hhead
    cases hhead
  | cons b bs =>
    rw [he] at hhead
    exact ⟨bs, by rw [Option.some.inj hhead]⟩

/-- Two escapes are told apart by the end of the shorter one. -/
theorem escaped_special_inj {c d : Char} (hc : isSpecial c = true) (hd : isSpecial d = true)
    {xs ys : List Char} (h : escaped c ++ xs = escaped d ++ ys) : c = d ∧ xs = ys := by
  obtain ⟨-, hlong, hpairs⟩ := escaped_specials c (mem_specials hc)
  obtain ⟨-, hlong', -⟩ := escaped_specials d (mem_specials hd)
  have htake : (escaped c).take 2 = (escaped d).take 2 := by
    have h := congrArg (List.take 2) h
    rwa [List.take_append_of_le_length hlong, List.take_append_of_le_length hlong'] at h
  obtain ⟨hlength, hinj⟩ := hpairs d (mem_specials hd) htake
  obtain ⟨he, hrest⟩ := List.append_inj h hlength
  exact ⟨hinj he, hrest⟩

theorem escaped_inj {c d : Char} {xs ys : List Char} (h : escaped c ++ xs = escaped d ++ ys) :
    c = d ∧ xs = ys := by
  cases hc : isSpecial c with
  | false =>
    obtain ⟨hce, hcs, -⟩ := escaped_of_plain hc
    cases hd : isSpecial d with
    | false =>
      obtain ⟨hde, -, -⟩ := escaped_of_plain hd
      rw [hce, hde] at h
      exact List.cons.inj h
    | true =>
      obtain ⟨ds, hds⟩ := escaped_of_special hd
      rw [hce, hds] at h
      exact absurd (List.cons.inj h).1 hcs
  | true =>
    cases hd : isSpecial d with
    | false =>
      obtain ⟨hde, hds, -⟩ := escaped_of_plain hd
      obtain ⟨cs, hcs⟩ := escaped_of_special hc
      rw [hcs, hde] at h
      exact absurd (List.cons.inj h).1.symm hds
    | true => exact escaped_special_inj hc hd h

/-- An escaped character does not start with the quote that ends a text. -/
theorem escaped_ne_quote (c : Char) (xs ys : List Char) : escaped c ++ xs ≠ '\x22' :: ys := by
  intro h
  cases hc : isSpecial c with
  | false =>
    obtain ⟨he, -, hq⟩ := escaped_of_plain hc
    rw [he] at h
    exact hq (List.cons.inj h).1
  | true =>
    obtain ⟨cs, he⟩ := escaped_of_special hc
    rw [he] at h
    exact absurd (List.cons.inj h).1 (by decide)

theorem flatMap_escaped_inj {s t xs ys : List Char}
    (h : s.flatMap escaped ++ '\x22' :: xs = t.flatMap escaped ++ '\x22' :: ys) :
    s = t ∧ xs = ys := by
  induction s generalizing t with
  | nil =>
    cases t with
    | nil => simpa using h
    | cons d t =>
      rw [List.flatMap_cons, List.append_assoc] at h
      exact absurd h.symm (escaped_ne_quote d _ _)
  | cons c s ih =>
    cases t with
    | nil =>
      rw [List.flatMap_cons, List.append_assoc] at h
      exact absurd h (escaped_ne_quote c _ _)
    | cons d t =>
      rw [List.flatMap_cons, List.flatMap_cons, List.append_assoc, List.append_assoc] at h
      obtain ⟨rfl, htail⟩ := escaped_inj h
      obtain ⟨rfl, hrest⟩ := ih htail
      exact ⟨rfl, hrest⟩

theorem quote_inj {s t : String} {xs ys : List Char}
    (h : (quote s).toList ++ xs = (quote t).toList ++ ys) : s = t ∧ xs = ys := by
  unfold quote at h
  rw [String.toList_ofList, String.toList_ofList, List.append_assoc, List.append_assoc] at h
  obtain ⟨hs, hrest⟩ := flatMap_escaped_inj (List.cons.inj h).2
  exact ⟨String.toList_injective hs, hrest⟩

/-! ## Documents -/

attribute [local simp] pretty prettyItems prettyFields

/-- The first character of a document tells its form. -/
def firstChar : Document → Char
  | null => 'n'
  | text _ => '\x22'
  | list _ => '['
  | object _ => '\x7b'

theorem toList_newline (depth : Nat) :
    (newline depth).toList = '\n' :: List.replicate (2 * depth) ' ' := by
  simp [newline]

theorem exists_toList_pretty (depth : Nat) (d : Document) :
    ∃ cs, (pretty depth d).toList = d.firstChar :: cs := by
  cases d with
  | null => exact ⟨['u', 'l', 'l'], by simp [firstChar]⟩
  | text s => exact ⟨_, by rw [pretty, quote, String.toList_ofList]; rfl⟩
  | list items =>
    cases items with
    | nil => exact ⟨[']'], by simp [firstChar]⟩
    | cons item items => exact ⟨_, by simp [firstChar]; rfl⟩
  | object fields =>
    cases fields with
    | nil => exact ⟨['\x7d'], by simp [firstChar]⟩
    | cons field fields =>
      obtain ⟨key, value⟩ := field
      exact ⟨_, by simp [firstChar]; rfl⟩

theorem firstChar_eq {depth : Nat} {d e : Document} {xs ys : List Char}
    (h : (pretty depth d).toList ++ xs = (pretty depth e).toList ++ ys) :
    d.firstChar = e.firstChar := by
  obtain ⟨ds, hd⟩ := exists_toList_pretty depth d
  obtain ⟨es, he⟩ := exists_toList_pretty depth e
  rw [hd, he] at h
  exact (List.cons.inj h).1

/-- No other document is printed as this one is, whatever follows. -/
def Determined (d : Document) : Prop :=
  ∀ (e : Document) (depth : Nat) (xs ys : List Char),
    (pretty depth d).toList ++ xs = (pretty depth e).toList ++ ys → d = e ∧ xs = ys

theorem determined_null : Determined null := by
  intro e depth xs ys h
  have hform := firstChar_eq h
  cases e with
  | null => exact ⟨rfl, by simpa using h⟩
  | _ => simp [firstChar] at hform

theorem determined_text (s : String) : Determined (text s) := by
  intro e depth xs ys h
  have hform := firstChar_eq h
  cases e with
  | text t =>
    simp only [pretty] at h
    obtain ⟨rfl, hrest⟩ := quote_inj h
    exact ⟨rfl, hrest⟩
  | _ => simp [firstChar] at hform

/-- The items after the first go on as long as there are commas. -/
theorem prettyItems_inj {ds : List Document} (hds : ∀ d ∈ ds, Determined d) {es : List Document}
    {depth : Nat} {xs ys : List Char} (hx : xs.head? ≠ some ',') (hy : ys.head? ≠ some ',')
    (h : (prettyItems depth ds).toList ++ xs = (prettyItems depth es).toList ++ ys) :
    ds = es ∧ xs = ys := by
  induction ds generalizing es with
  | nil =>
    cases es with
    | nil => exact ⟨rfl, by simpa using h⟩
    | cons e es => simp at h; simp [h] at hx
  | cons d ds ih =>
    cases es with
    | nil => simp at h; simp [← h] at hy
    | cons e es =>
      simp only [prettyItems, String.toList_append, List.append_assoc,
        List.append_cancel_left_eq] at h
      obtain ⟨rfl, hrest⟩ := hds d (by simp) e depth _ _ h
      obtain ⟨rfl, hend⟩ := ih (fun d hd => hds d (by simp [hd])) hrest
      exact ⟨rfl, hend⟩

theorem prettyFields_inj {ds : List (String × Document)} (hds : ∀ d ∈ ds, Determined d.2)
    {es : List (String × Document)} {depth : Nat} {xs ys : List Char}
    (hx : xs.head? ≠ some ',') (hy : ys.head? ≠ some ',')
    (h : (prettyFields depth ds).toList ++ xs = (prettyFields depth es).toList ++ ys) :
    ds = es ∧ xs = ys := by
  induction ds generalizing es with
  | nil =>
    cases es with
    | nil => exact ⟨rfl, by simpa using h⟩
    | cons e es => simp at h; simp [h] at hx
  | cons d ds ih =>
    cases es with
    | nil => simp at h; simp [← h] at hy
    | cons e es =>
      obtain ⟨key, d⟩ := d
      obtain ⟨key', e⟩ := e
      simp only [prettyFields, String.toList_append, List.append_assoc,
        List.append_cancel_left_eq] at h
      obtain ⟨rfl, hvalue⟩ := quote_inj h
      obtain ⟨rfl, hrest⟩ : d = e ∧ _ :=
        hds (key, d) (by simp) e depth _ _ (List.append_cancel_left hvalue)
      obtain ⟨rfl, hend⟩ := ih (fun d hd => hds d (by simp [hd])) hrest
      exact ⟨rfl, hend⟩

theorem head?_newline (depth : Nat) (xs : List Char) :
    ((newline depth).toList ++ xs).head? ≠ some ',' := by
  simp [toList_newline]

theorem determined_list {ds : List Document} (hds : ∀ d ∈ ds, Determined d) :
    Determined (list ds) := by
  intro e depth xs ys h
  have hform := firstChar_eq h
  cases e with
  | list es =>
    cases ds with
    | nil =>
      cases es with
      | nil => exact ⟨rfl, by simpa using h⟩
      | cons e es => simp [toList_newline] at h
    | cons d ds =>
      cases es with
      | nil => simp [toList_newline] at h
      | cons e es =>
        simp only [pretty, String.toList_append, List.append_assoc,
          List.append_cancel_left_eq] at h
        obtain ⟨rfl, hrest⟩ := hds d (by simp) e (depth + 1) _ _ h
        obtain ⟨rfl, hend⟩ := prettyItems_inj (fun d hd => hds d (List.mem_cons_of_mem _ hd))
          (head?_newline _ _) (head?_newline _ _) hrest
        exact ⟨rfl, by simpa using hend⟩
  | _ => simp [firstChar] at hform

theorem determined_object {ds : List (String × Document)} (hds : ∀ d ∈ ds, Determined d.2) :
    Determined (object ds) := by
  intro e depth xs ys h
  have hform := firstChar_eq h
  cases e with
  | object es =>
    cases ds with
    | nil =>
      cases es with
      | nil => exact ⟨rfl, by simpa using h⟩
      | cons e es => simp [toList_newline] at h
    | cons d ds =>
      cases es with
      | nil => simp [toList_newline] at h
      | cons e es =>
        obtain ⟨key, d⟩ := d
        obtain ⟨key', e⟩ := e
        simp only [pretty, String.toList_append, List.append_assoc,
          List.append_cancel_left_eq] at h
        obtain ⟨rfl, hvalue⟩ := quote_inj h
        obtain ⟨rfl, hrest⟩ : d = e ∧ _ :=
          hds (key, d) (by simp) e (depth + 1) _ _ (List.append_cancel_left hvalue)
        obtain ⟨rfl, hend⟩ := prettyFields_inj (fun d hd => hds d (List.mem_cons_of_mem _ hd))
          (head?_newline _ _) (head?_newline _ _) hrest
        exact ⟨rfl, by simpa using hend⟩
  | _ => simp [firstChar] at hform

mutual

theorem determined : ∀ d : Document, Determined d
  | null => determined_null
  | text s => determined_text s
  | list ds => determined_list (determined_items ds)
  | object ds => determined_object (determined_fields ds)

theorem determined_items : ∀ (ds : List Document), ∀ d ∈ ds, Determined d
  | [] => by simp
  | d :: ds => by simpa using ⟨determined d, determined_items ds⟩

theorem determined_fields : ∀ (ds : List (String × Document)), ∀ d ∈ ds, Determined d.2
  | [] => by simp
  | (_, d) :: ds => by
    have hd := determined d
    have hds := determined_fields ds
    exact List.forall_mem_cons.mpr ⟨hd, hds⟩

end

/-- Documents that are printed the same are the same. -/
theorem pretty_injective (depth : Nat) : Function.Injective (pretty depth) := by
  intro d e h
  exact (determined d e depth [] [] (by rw [h])).1

end LittleLang.Document
