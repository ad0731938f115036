import Mathlib.Data.List.Forall2
import Mathlib.Data.List.Nodup
import Mathlib.Data.List.ReduceOption
import Mathlib.Data.Nat.Find

/-!
Lists: members that correspond to each other, and lists of which only the first member of a kind is
kept.
-/

namespace LineGrammar

variable {α β : Type}

theorem lt_length_of_getElem? {l : List α} {i : Nat} {a : α} (h : l[i]? = some a) : i < l.length :=
  (List.getElem?_eq_some_iff.mp h).choose

theorem nodup_map_append {f : α → β} {l : List α} {a : α} (h : (l.map f).Nodup)
    (ha : ∀ b ∈ l, f b ≠ f a) : ((l ++ [a]).map f).Nodup := by
  rw [List.map_append, List.map_singleton, ← List.concat_eq_append, List.nodup_concat]
  simpa using ⟨ha, h⟩

theorem index_eq_of_nodup {f : α → β} {l : List α} (h : (l.map f).Nodup) {i j : Nat} {a b : α}
    (ha : l[i]? = some a) (hb : l[j]? = some b) (he : f a = f b) : i = j := by
  have hlt : i < (l.map f).length := by simpa using lt_length_of_getElem? ha
  exact (List.getElem?_inj hlt h).mp (by simp [ha, hb, he])

theorem indices_eq_of_nodup_flatMap {γ : Type} {f : α → List β} {g : β → γ} {l : List α}
    (h : ((l.flatMap f).map g).Nodup) {i i' j j' : Nat} {a a' : α} {b b' : β} (ha : l[i]? = some a)
    (ha' : l[i']? = some a') (hb : (f a)[j]? = some b) (hb' : (f a')[j']? = some b') (he : g b = g b') :
    i = i' ∧ j = j' := by
  rw [List.map_flatMap, List.nodup_flatMap, List.pairwise_iff_getElem] at h
  obtain ⟨hwithin, hacross⟩ := h
  have hnlt : ∀ {i i' : Nat} {a a' : α} {b b' : β}, l[i]? = some a → l[i']? = some a' → b ∈ f a →
      b' ∈ f a' → g b = g b' → ¬i < i' := by
    intro i i' a a' b b' ha ha' hb hb' he hlt
    obtain ⟨hi, rfl⟩ := List.getElem?_eq_some_iff.mp ha
    obtain ⟨hi', rfl⟩ := List.getElem?_eq_some_iff.mp ha'
    exact hacross i i' hi hi' hlt (List.mem_map_of_mem hb) (he ▸ List.mem_map_of_mem hb')
  have hm := List.mem_of_getElem? hb
  have hm' := List.mem_of_getElem? hb'
  obtain rfl : i = i' := by
    have := hnlt ha ha' hm hm' he
    have := hnlt ha' ha hm' hm he.symm
    omega
  cases ha.symm.trans ha'
  exact ⟨rfl, index_eq_of_nodup (hwithin a (List.mem_of_getElem? ha)) hb hb' he⟩

theorem findIdx?_eq_some_iff_of_nodup [BEq β] [LawfulBEq β] {f : α → β} {l : List α}
    (h : (l.map f).Nodup) {i : Nat} {b : β} :
    l.findIdx? (f · == b) = some i ↔ ∃ a, l[i]? = some a ∧ f a = b := by
  rw [List.findIdx?_eq_some_iff_getElem]
  constructor
  case mp =>
    intro ⟨hlt, hb, _⟩
    exact ⟨_, List.getElem?_eq_getElem hlt, eq_of_beq hb⟩
  case mpr =>
    rintro ⟨a, ha, rfl⟩
    obtain ⟨hlt, rfl⟩ := List.getElem?_eq_some_iff.mp ha
    refine ⟨hlt, beq_self_eq_true _, fun j hj he => ?_⟩
    have := index_eq_of_nodup h (List.getElem?_eq_getElem (Nat.lt_trans hj hlt)) ha (eq_of_beq he)
    omega

theorem modify_map_of_comm {f : α → β} {g : α → α} {h : β → β} (hcomm : ∀ a, h (f a) = f (g a))
    (l : List α) (i : Nat) : (l.map f).modify i h = (l.modify i g).map f := by
  apply List.ext_getElem?
  intro j
  simp only [List.getElem?_modify, List.getElem?_map]
  cases l[j]? <;> by_cases hij : i = j <;> simp [hij, hcomm]

theorem getLast?_append_toList (l : List α) (a : Option α) :
    (l ++ a.toList).getLast? = a.or l.getLast? := by
  cases a <;> simp

theorem exists_left_of_forall₂ {R : α → β → Prop} {as : List α} {bs : List β}
    (h : List.Forall₂ R as bs) {b : β} (hb : b ∈ bs) : ∃ a ∈ as, R a b := by
  induction h
  case nil => simp at hb
  case cons a _ _ _ hr _ ih =>
    cases hb
    case head    => exact ⟨a, List.mem_cons_self, hr⟩
    case tail hb => exact (ih hb).imp fun _ ⟨hm, hr⟩ => ⟨List.mem_cons_of_mem _ hm, hr⟩

theorem exists_right_of_forall₂ {R : α → β → Prop} {as : List α} {bs : List β}
    (h : List.Forall₂ R as bs) {a : α} (ha : a ∈ as) : ∃ b ∈ bs, R a b :=
  exists_left_of_forall₂ h.flip ha

theorem forall₂_trans {γ : Type} {R : α → β → Prop} {S : β → γ → Prop} {T : α → γ → Prop}
    {as : List α} {bs : List β} {cs : List γ} (h : List.Forall₂ R as bs) (h' : List.Forall₂ S bs cs)
    (ht : ∀ a b c, R a b → S b c → T a c) : List.Forall₂ T as cs := by
  induction h generalizing cs
  case nil =>
    cases h'
    exact .nil
  case cons hr _ ih =>
    cases h' with | cons hs h' =>
    exact .cons (ht _ _ _ hr hs) (ih h')

theorem map_eq_map_of_forall₂ {γ : Type} {R : α → β → Prop} {f : α → γ} {g : β → γ} {as : List α}
    {bs : List β} (h : List.Forall₂ R as bs) (hr : ∀ a b, R a b → f a = g b) : as.map f = bs.map g := by
  induction h
  case nil           => rfl
  case cons hab _ ih => rw [List.map_cons, List.map_cons, hr _ _ hab, ih]

theorem forall₂_and_of_map_eq {γ : Type} {R : α → β → Prop} {f : α → γ} {g : β → γ} {as : List α}
    {bs : List β} (h : List.Forall₂ R as bs) (he : bs.map g = as.map f) :
    List.Forall₂ (fun a b => R a b ∧ g b = f a) as bs := by
  induction h
  case nil => exact .nil
  case cons hr _ ih =>
    rw [List.map_cons, List.map_cons, List.cons.injEq] at he
    exact .cons ⟨hr, he.left⟩ (ih he.right)

-- Where the images are the same up to some point, and are all one from there on, only the lengths matter.
theorem map_append_eq_of_length {γ : Type} {f : α → γ} {g : β → γ} {as as' : List α} {bs bs' : List β} {c : γ}
    (h : as.map f = bs.map g) (hlen : (as ++ as').length = (bs ++ bs').length) (ha : ∀ a ∈ as', f a = c)
    (hb : ∀ b ∈ bs', g b = c) : (as ++ as').map f = (bs ++ bs').map g := by
  have hl := congrArg List.length h
  simp only [List.length_append, List.length_map] at hl hlen
  rw [List.map_append, List.map_append, h, List.map_eq_replicate_iff.mpr ha, List.map_eq_replicate_iff.mpr hb,
    show as'.length = bs'.length by omega]

theorem eq_nil_iff_of_mem_map_iff {γ : Type} {f : α → γ} {g : β → γ} {as : List α} {bs : List β}
    (h : ∀ c, c ∈ as.map f ↔ c ∈ bs.map g) : as = [] ↔ bs = [] := by
  rw [← List.map_eq_nil_iff (f := f), ← List.map_eq_nil_iff (f := g), List.eq_nil_iff_forall_not_mem,
    List.eq_nil_iff_forall_not_mem]
  simp only [h]

theorem forM_eq_ok_iff {ε : Type} {f : α → Except ε Unit} {l : List α} :
    l.forM f = .ok () ↔ ∀ a ∈ l, f a = .ok () := by
  induction l
  case nil => simp [pure, Except.pure]
  case cons a rest ih =>
    have : (a :: rest).forM f = f a >>= fun _ => rest.forM f := rfl
    rw [this, List.forall_mem_cons, ← ih]
    cases f a <;> simp [bind, Except.bind]

theorem exists_of_forM_eq_error {ε : Type} {f : α → Except ε Unit} {l : List α} {error : ε}
    (h : l.forM f = .error error) : ∃ a ∈ l, f a = .error error := by
  induction l
  case nil => cases h
  case cons a rest ih =>
    have hforM : (a :: rest).forM f = f a >>= fun _ => rest.forM f := rfl
    rw [hforM] at h
    cases ha : f a
    case error other =>
      rw [ha] at h
      cases h
      exact ⟨a, List.mem_cons_self, ha⟩
    case ok =>
      rw [ha] at h
      obtain ⟨b, hb, he⟩ := ih h
      exact ⟨b, List.mem_cons_of_mem _ hb, he⟩

theorem forM_mapError {ε ε' : Type} {f : α → Except ε Unit} {f' : α → Except ε' Unit} {g : ε → ε'}
    {l : List α} (h : ∀ a ∈ l, f' a = (f a).mapError g) : l.forM f' = (l.forM f).mapError g := by
  induction l
  case nil => rfl
  case cons a rest ih =>
    rw [List.forall_mem_cons] at h
    have hforM : ∀ {ε : Type} (f : α → Except ε Unit),
        (a :: rest).forM f = f a >>= fun _ => rest.forM f := fun _ => rfl
    rw [hforM, hforM, h.left, ih h.right]
    cases f a <;> rfl

theorem exists_eq_append_cons_iff {P : List α → α → List α → Prop} {first : α} {rest : List α} :
    (∃ before a after, first :: rest = before ++ a :: after ∧ P before a after) ↔
      P [] first rest ∨ ∃ before a after, rest = before ++ a :: after ∧ P (first :: before) a after := by
  constructor
  case mp =>
    rintro ⟨before, a, after, he, hp⟩
    cases before
    case nil =>
      obtain ⟨rfl, rfl⟩ := List.cons.inj he
      exact .inl hp
    case cons =>
      obtain ⟨rfl, rfl⟩ := List.cons.inj he
      exact .inr ⟨_, a, after, rfl, hp⟩
  case mpr =>
    rintro (hp | ⟨before, a, after, rfl, hp⟩)
    · exact ⟨[], first, rest, rfl, hp⟩
    · exact ⟨first :: before, a, after, rfl, hp⟩

theorem mapM_eq_error_iff {ε : Type} {f : α → Except ε β} {l : List α} {error : ε} :
    l.mapM f = .error error ↔ ∃ before a after, l = before ++ a :: after ∧
      (∀ earlier ∈ before, ∃ b, f earlier = .ok b) ∧ f a = .error error := by
  induction l
  case nil => simp [pure, Except.pure]
  case cons first rest ih =>
    simp only [exists_eq_append_cons_iff, List.forall_mem_cons, List.not_mem_nil, false_imp_iff,
      implies_true, true_and, List.mapM_cons]
    cases hf : f first
    case error => simp [bind, Except.bind]
    case ok b =>
      have hrest : (Except.ok b >>= fun b => rest.mapM f >>= fun bs => pure (b :: bs)) = .error error ↔
          rest.mapM f = .error error := by
        cases rest.mapM f <;> simp [bind, Except.bind, pure, Except.pure]
      rw [hrest, ih]
      simp

theorem mapM_eq_some_map {f : α → Option β} {g : α → β} {l : List α} (h : ∀ a ∈ l, f a = some (g a)) :
    l.mapM f = some (l.map g) := by
  induction l
  case nil => rfl
  case cons a rest ih =>
    rw [List.forall_mem_cons] at h
    simp [h.left, ih h.right]

theorem length_eq_one_iff_of_mem {l : List α} {a : α} (h : a ∈ l) : l.length = 1 ↔ l = [a] := by
  constructor
  case mp =>
    intro hl
    obtain ⟨b, rfl⟩ := List.length_eq_one_iff.mp hl
    rw [List.mem_singleton.mp h]
  case mpr =>
    rintro rfl
    rfl

theorem exists_forall₂_iff {R : α → β → Prop} {as : List α} :
    (∃ bs, List.Forall₂ R as bs) ↔ ∀ a ∈ as, ∃ b, R a b := by
  constructor
  case mp =>
    intro ⟨bs, h⟩ a ha
    have ⟨b, _, hr⟩ := exists_right_of_forall₂ h ha
    exact ⟨b, hr⟩
  case mpr =>
    intro h
    induction as
    case nil => exact ⟨[], .nil⟩
    case cons a rest ih =>
      rw [List.forall_mem_cons] at h
      have ⟨b, hb⟩ := h.left
      have ⟨bs, hbs⟩ := ih h.right
      exact ⟨b :: bs, .cons hb hbs⟩

theorem reduceOption_map_some (l : List α) : (l.map some).reduceOption = l := by
  induction l <;> simp_all

theorem exists_map_some_iff {l : List (Option α)} : (∃ as : List α, l = as.map some) ↔ none ∉ l := by
  constructor
  case mp =>
    rintro ⟨as, rfl⟩
    simp
  case mpr =>
    intro h
    induction l
    case nil => exact ⟨[], rfl⟩
    case cons a rest ih =>
      rw [List.mem_cons, not_or] at h
      have ⟨b, hb⟩ := Option.ne_none_iff_exists'.mp (Ne.symm h.left)
      have ⟨bs, hbs⟩ := ih h.right
      exact ⟨b :: bs, by rw [hb, hbs, List.map_cons]⟩

-- A stretch of the list without the separator, from one separator or end to the next.
def IsRun (separator : α) (l run : List α) : Prop :=
  separator ∉ run ∧ ∃ before after, l = before ++ run ++ after ∧
    (before = [] ∨ before.getLast? = some separator) ∧ (after = [] ∨ after.head? = some separator)

theorem isRun_of_mem_splitOn [BEq α] [LawfulBEq α] {a : α} {l run : List α}
    (h : run ∈ l.splitOn a) : IsRun a l run := by
  by_cases ha : a ∈ l
  case neg =>
    rw [List.splitOn_eq_singleton ha, List.mem_singleton] at h
    subst h
    exact ⟨ha, [], [], by simp, .inl rfl, .inl rfl⟩
  case pos =>
    have ⟨first, rest, he, hf⟩ := List.eq_append_cons_of_mem ha
    rw [he, List.splitOn_append_cons_self_of_not_mem hf, List.mem_cons] at h
    cases h
    case inl h =>
      subst h
      exact ⟨hf, [], a :: rest, by simp [he], .inl rfl, .inr rfl⟩
    case inr h =>
      have : rest.length < l.length := by simp [he]; omega
      have ⟨hn, before, after, hr, hb, hafter⟩ := isRun_of_mem_splitOn h
      refine ⟨hn, first ++ a :: before, after, by simp [he, hr], .inr ?_, hafter⟩
      cases hb
      case inl hb => simp [hb]
      case inr hb => simp [List.getLast?_append, List.getLast?_cons, hb]
termination_by l.length

theorem mem_splitOn_iff [BEq α] [LawfulBEq α] {a : α} {l run : List α} :
    run ∈ l.splitOn a ↔ IsRun a l run := by
  constructor
  case mp => exact isRun_of_mem_splitOn
  case mpr =>
    rintro ⟨hn, before, after, rfl, hb, ha⟩
    have hmem : run ∈ (run ++ after).splitOn a := by
      cases ha
      case inl ha => simp [ha, List.splitOn_eq_singleton hn]
      case inr ha =>
        obtain ⟨rest, rfl⟩ := List.head?_eq_some_iff.mp ha
        simp [List.splitOn_append_cons_self_of_not_mem hn]
    cases hb
    case inl hb => simpa [hb] using hmem
    case inr hb =>
      obtain ⟨front, rfl⟩ := List.getLast?_eq_some_iff.mp hb
      have : front ++ [a] ++ run ++ after = front ++ a :: (run ++ after) := by simp
      rw [this, List.splitOn_append_cons_self]
      exact List.mem_append_right _ hmem

theorem mem_or_exists_of_mem_intercalate {a : α} {separator : List α} {parts : List (List α)}
    (h : a ∈ separator.intercalate parts) : a ∈ separator ∨ ∃ part ∈ parts, a ∈ part := by
  induction parts
  case nil => simp at h
  case cons part rest ih =>
    by_cases hn : rest = []
    case pos => exact .inr ⟨part, List.mem_cons_self, by simpa [hn] using h⟩
    case neg =>
      rw [List.intercalate_cons_of_ne_nil hn, List.mem_append, List.mem_append] at h
      obtain (h | h) | h := h
      · exact .inr ⟨part, List.mem_cons_self, h⟩
      · exact .inl h
      · exact (ih h).imp_right fun ⟨other, hm, ha⟩ => ⟨other, List.mem_cons_of_mem _ hm, ha⟩

structure IsFirst (l : List α) (P : Nat → α → Prop) (i : Nat) (a : α) : Prop where
  getElem? : l[i]? = some a
  holds    : P i a
  least    : ∀ {j b}, l[j]? = some b → P j b → i ≤ j

theorem exists_isFirst_iff {P : Nat → α → Prop} {l : List α} :
    (∃ i a, IsFirst l P i a) ↔ ∃ i a, l[i]? = some a ∧ P i a := by
  constructor
  case mp => exact fun ⟨i, a, h⟩ => ⟨i, a, h.getElem?, h.holds⟩
  case mpr =>
    classical
    intro h
    have ⟨a, ha, hp⟩ := Nat.find_spec h
    exact ⟨Nat.find h, a, ha, hp, fun hb hp => Nat.find_min' h ⟨_, hb, hp⟩⟩

theorem isFirst_congr {P Q : Nat → α → Prop} {l : List α} (h : ∀ i a, l[i]? = some a → (P i a ↔ Q i a))
    {i : Nat} {a : α} : IsFirst l P i a ↔ IsFirst l Q i a := by
  constructor
  · exact fun hf => ⟨hf.getElem?, (h i a hf.getElem?).mp hf.holds,
      fun hb hq => hf.least hb ((h _ _ hb).mpr hq)⟩
  · exact fun hf => ⟨hf.getElem?, (h i a hf.getElem?).mpr hf.holds,
      fun hb hp => hf.least hb ((h _ _ hb).mp hp)⟩

theorem find?_eq_some_iff_isFirst {p : α → Bool} {l : List α} {a : α} :
    l.find? p = some a ↔ ∃ i, IsFirst l (fun _ b => p b) i a := by
  rw [List.find?_eq_some_iff_getElem]
  constructor
  case mp =>
    rintro ⟨hp, i, hlt, rfl, hmin⟩
    refine ⟨i, List.getElem?_eq_getElem hlt, hp, fun {j b} hb hp => ?_⟩
    obtain ⟨_, rfl⟩ := List.getElem?_eq_some_iff.mp hb
    by_contra hn
    simpa [hp] using hmin j (Nat.lt_of_not_le hn)
  case mpr =>
    intro ⟨i, h⟩
    obtain ⟨hlt, rfl⟩ := List.getElem?_eq_some_iff.mp h.getElem?
    refine ⟨h.holds, i, hlt, rfl, fun j hj => ?_⟩
    have hb : l[j]? = some l[j] := List.getElem?_eq_getElem (Nat.lt_trans hj hlt)
    have := mt (h.least hb) (Nat.not_le.mpr hj)
    simpa using this

theorem findSome?_zipIdx_eq_some_iff {f : α × Nat → Option β} {l : List α} {b : β} :
    l.zipIdx.findSome? f = some b ↔
      ∃ i a, IsFirst l (fun i a => (f (a, i)).isSome) i a ∧ f (a, i) = some b := by
  rw [List.findSome?_eq_some_iff]
  constructor
  case mp =>
    rintro ⟨before, ⟨a, i⟩, after, he, hb, hnone⟩
    have hi : before.length = i := by
      have := congrArg (·[before.length]?) he
      simp only [List.getElem?_zipIdx, List.getElem?_append_right (Nat.le_refl _), Nat.sub_self,
        List.getElem?_cons_zero, Option.map_eq_some_iff, Prod.mk.injEq] at this
      obtain ⟨_, _, _, hi⟩ := this
      simpa using hi
    have hget : ∀ (j : Nat) (c : α), l[j]? = some c ↔ (before ++ (a, i) :: after)[j]? = some (c, j) := by
      intro j c
      simp [← he, List.getElem?_zipIdx]
    refine ⟨i, a, ⟨(hget i a).mpr (by simp [← hi]), by simp [hb], fun {j c} hc hs => ?_⟩, hb⟩
    by_contra hlt
    have hj := (hget j c).mp hc
    rw [List.getElem?_append_left (by omega)] at hj
    simp [hnone _ (List.mem_of_getElem? hj)] at hs
  case mpr =>
    intro ⟨i, a, h, hb⟩
    have hi : l.zipIdx[i]? = some (a, i) := by simp [List.getElem?_zipIdx, h.getElem?]
    obtain ⟨hlt, hx⟩ := List.getElem?_eq_some_iff.mp hi
    refine ⟨l.zipIdx.take i, (a, i), l.zipIdx.drop (i + 1), ?_, hb, fun ⟨c, j⟩ hm => ?_⟩
    · rw [← hx, ← List.drop_eq_getElem_cons hlt, List.take_append_drop]
    · have ⟨k, hk⟩ := List.mem_iff_getElem?.mp hm
      rw [List.getElem?_take] at hk
      split at hk
      case isFalse => cases hk
      case isTrue hki =>
        simp only [List.getElem?_zipIdx, Option.map_eq_some_iff, Prod.mk.injEq, Nat.zero_add] at hk
        obtain ⟨_, hc, rfl, rfl⟩ := hk
        have := mt (h.least hc) (Nat.not_le.mpr hki)
        simpa using this

def keepFirst (p : α → Bool) : List α → List α
  | [] => []
  | a :: rest => if p a then a :: rest.filter (!p ·) else a :: keepFirst p rest

variable {p : α → Bool} {a : α} {l : List α}

theorem keepFirst_append_of_any (hl : l.any p) (ha : p a) : keepFirst p (l ++ [a]) = keepFirst p l := by
  induction l
  case nil => simp at hl
  case cons b rest ih =>
    by_cases hb : p b
    case pos => simp [keepFirst, hb, ha]
    case neg =>
      simp only [List.any_cons, hb, Bool.false_or] at hl
      simp [keepFirst, hb, ih hl]

theorem keepFirst_append (h : ¬(l.any p ∧ p a)) :
    keepFirst p (l ++ [a]) = keepFirst p l ++ [a] := by
  induction l
  case nil => simp [keepFirst]
  case cons b rest ih =>
    by_cases hb : p b
    case pos =>
      have : p a = false := by simpa [hb] using h
      simp [keepFirst, hb, this]
    case neg => simpa [keepFirst, hb] using ih (by simpa [hb] using h)

theorem keepFirst_eq_nil_iff : keepFirst p l = [] ↔ l = [] := by
  cases l
  case nil => rfl
  case cons b rest => by_cases hb : p b <;> simp [keepFirst, hb]

theorem any_keepFirst : (keepFirst p l).any p = l.any p := by
  induction l
  case nil => rfl
  case cons b rest ih => by_cases hb : p b <;> simp [keepFirst, hb, ih]

@[simp]
theorem keepFirst_keepFirst : keepFirst p (keepFirst p l) = keepFirst p l := by
  induction l
  case nil => rfl
  case cons b rest ih => by_cases hb : p b <;> simp [keepFirst, hb, ih]

theorem keepFirst_map {f : β → α} {l : List β} :
    keepFirst p (l.map f) = (keepFirst (fun b => p (f b)) l).map f := by
  induction l
  case nil => rfl
  case cons b rest ih =>
    by_cases hb : p (f b) <;> simp [keepFirst, hb, ih, List.filter_map, Function.comp_def]

theorem keepFirst_sublist : (keepFirst p l).Sublist l := by
  induction l
  case nil => exact .slnil
  case cons b rest ih =>
    by_cases hb : p b
    case pos => simp [keepFirst, hb]
    case neg => simp [keepFirst, hb, ih]

theorem exists_keepFirst_append (l l' : List α) :
    ∃ later, keepFirst p (l ++ l') = keepFirst p l ++ later ∧ later ⊆ l' := by
  induction l
  case nil => exact ⟨keepFirst p l', rfl, keepFirst_sublist.subset⟩
  case cons b rest ih =>
    by_cases hb : p b
    case pos => exact ⟨l'.filter (!p ·), by simp [keepFirst, hb], List.filter_subset_self _⟩
    case neg =>
      have ⟨later, he, hsub⟩ := ih
      exact ⟨later, by simp [keepFirst, hb, he], hsub⟩

-- Where all members with the property are equal, only repetitions are left out.
theorem mem_keepFirst {b : α} (hp : ∀ c, p c ↔ c = b) : a ∈ keepFirst p l ↔ a ∈ l := by
  induction l
  case nil => rfl
  case cons c rest ih =>
    by_cases hc : p c
    case neg => simp [keepFirst, hc, ih]
    case pos =>
      cases (hp c).mp hc
      by_cases ha : a = b
      · simp [keepFirst, hc, ha]
      · simp [keepFirst, hc, ha, mt (hp a).mp ha]

theorem keepFirst_perm {b : α} (hp : ∀ c, p c ↔ c = b) {l' : List α} (h : l.Perm l') :
    (keepFirst p l).Perm (keepFirst p l') := by
  induction h
  case nil => exact .refl _
  case cons c rest rest' hr ih =>
    by_cases hc : p c
    · simpa [keepFirst, hc] using hr.filter _
    · simpa [keepFirst, hc] using ih
  case swap c d rest =>
    by_cases hc : p c <;> by_cases hd : p d
    · rw [(hp c).mp hc, (hp d).mp hd]
    all_goals simpa [keepFirst, hc, hd] using .swap ..
  case trans ih₁ ih₂ => exact ih₁.trans ih₂

theorem head?_eraseDups [BEq α] (l : List α) : l.eraseDups.head? = l.head? := by
  cases l
  case nil  => rfl
  case cons => rw [List.eraseDups_cons, List.head?_cons, List.head?_cons]

section

variable [BEq α] [LawfulBEq α]

theorem eraseDups_append_singleton (l : List α) (a : α) :
    (l ++ [a]).eraseDups = if l.contains a then l.eraseDups else l.eraseDups ++ [a] := by
  rw [List.eraseDups_append]
  by_cases h : a ∈ l <;> simp [List.removeAll, h, List.eraseDups_cons]

theorem nodup_eraseDups (l : List α) : l.eraseDups.Nodup := by
  match l with
  | [] => simp
  | a :: rest =>
    rw [List.eraseDups_cons, List.nodup_cons]
    exact ⟨by simp, nodup_eraseDups _⟩
termination_by l.length
decreasing_by exact Nat.lt_succ_of_le (List.length_filter_le ..)

theorem eraseDups_of_nodup {l : List α} (h : l.Nodup) : l.eraseDups = l := by
  induction l
  case nil => rfl
  case cons a rest ih =>
    rw [List.nodup_cons] at h
    have hfilter : rest.filter (!· == a) = rest := by
      refine List.filter_eq_self.mpr fun b hb => ?_
      have : b ≠ a := fun he => h.left (he ▸ hb)
      simpa using this
    rw [List.eraseDups_cons, hfilter, ih h.right]

end

-- The list cut right before each member that has the property: what stands before the first of them,
-- and the parts that start with one.
def cutBefore (p : α → Bool) : List α → List α × List (List α)
  | [] => ([], [])
  | a :: rest =>
    let (front, parts) := cutBefore p rest
    if p a then ([], (a :: front) :: parts) else (a :: front, parts)

theorem append_flatten_cutBefore (p : α → Bool) (l : List α) :
    (cutBefore p l).1 ++ (cutBefore p l).2.flatten = l := by
  induction l
  case nil => rfl
  case cons a rest ih => by_cases ha : p a <;> simp [cutBefore, ha, ih]

theorem not_of_mem_cutBefore_fst : ∀ a ∈ (cutBefore p l).1, p a = false := by
  induction l
  case nil => simp [cutBefore]
  case cons b rest ih =>
    by_cases hb : p b
    case pos => simp [cutBefore, hb]
    case neg => simpa [cutBefore, hb] using ih

theorem exists_of_mem_cutBefore {part : List α} (h : part ∈ (cutBefore p l).2) :
    ∃ a rest, part = a :: rest ∧ p a ∧ ∀ b ∈ rest, p b = false := by
  induction l
  case nil => simp [cutBefore] at h
  case cons b rest ih =>
    by_cases hb : p b
    case neg => exact ih (by simpa [cutBefore, hb] using h)
    case pos =>
      have h : part = b :: (cutBefore p rest).1 ∨ part ∈ (cutBefore p rest).2 := by
        simpa [cutBefore, hb] using h
      cases h
      case inl h => exact ⟨b, _, h, hb, not_of_mem_cutBefore_fst⟩
      case inr h => exact ih h

end LineGrammar
