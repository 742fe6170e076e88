import Mathlib
import SqlQuery.Proofs.ClosureStrings
import SqlQuery.Proofs.CountedHeight
import SqlQuery.Proofs.GrammaticalTrees
import SqlQuery.Proofs.Utf8RoundTrip

/-!
# The trees of closures

`Closure.Grammatical` describes the trees that closures are read to: paths of words, after the name of a collection or
alone, constants, operators, calls of methods with any number of arguments, objects and sequences. Words hold no quotes,
for a quote starts another token and no other byte is part of one (`quote_not_mem_decode`).
-/

namespace SqlQuery

namespace Text.Utf8

/-- A character that is being read lies behind the first 64. -/
def State.Lawful : State → Prop
  | .ready => True
  | .inside more low _ bits => 0 < bits ∨ 0 < more ∧ 0x80 < low.toNat

theorem eq_of_ofNat_eq_quote {n : Nat} (h : Char.ofNat n = '\x27') : n = 39 := by
  have hn := congrArg Char.toNat h
  rw [Char.toNat_ofNat] at hn
  split at hn
  · exact hn
  · cases hn

/-- Characters without a quote, and a state that is lawful. -/
def Quoteless (step : List Char × State) : Prop := '\x27' ∉ step.1 ∧ step.2.Lawful

theorem quoteless_first {b : UInt8} (hb : b ≠ 0x27) : Quoteless (first b) := by
  have hreplacement : Quoteless ([replacement], .ready) := ⟨by decide, trivial⟩
  -- the bits of a first byte are those above its mark
  have hbits : ∀ mark : UInt8, ¬ b < mark → b ≠ mark → 0 < b.toNat - mark.toNat := by
    intro mark hlt hne
    rw [UInt8.lt_iff_toNat_lt] at hlt
    rw [Ne, ← UInt8.toNat_inj] at hne
    omega
  refine iteInduction (fun _ => ⟨fun hmem => hb ?_, trivial⟩) fun _ => iteInduction (fun _ => hreplacement) fun h₂ => ?_
  · exact UInt8.toNat_inj.1 (eq_of_ofNat_eq_quote (List.mem_singleton.1 hmem).symm)
  refine iteInduction (fun _ => ⟨List.not_mem_nil, .inl ?_⟩) fun h₃ => ?_
  · rw [UInt8.lt_iff_toNat_lt] at h₂
    exact Nat.sub_pos_of_lt (Nat.lt_of_lt_of_le (by decide) (Nat.le_of_not_lt h₂))
  refine iteInduction (fun _ => ⟨List.not_mem_nil, .inr (by decide)⟩) fun h₄ => ?_
  refine iteInduction (fun _ => ⟨List.not_mem_nil, .inl (by decide)⟩) fun _ => ?_
  refine iteInduction (fun _ => ⟨List.not_mem_nil, .inl (hbits 0xE0 h₃ h₄)⟩) fun h₆ => ?_
  refine iteInduction (fun _ => ⟨List.not_mem_nil, .inr (by decide)⟩) fun h₇ => ?_
  refine iteInduction (fun _ => ⟨List.not_mem_nil, .inl (hbits 0xF0 h₆ h₇)⟩) fun _ => ?_
  exact iteInduction (fun _ => ⟨List.not_mem_nil, .inl (by decide)⟩) fun _ => hreplacement

theorem quoteless_feed {s : State} {b : UInt8} (hs : s.Lawful) (hb : b ≠ 0x27) : Quoteless (s.feed b) := by
  obtain ⟨hchars, hnext⟩ := quoteless_first hb
  cases s with
  | ready => exact ⟨hchars, hnext⟩
  | inside more low high bits =>
    rw [State.feed]
    split
    · next hrange =>
      have hlow : low.toNat ≤ b.toNat := UInt8.le_iff_toNat_le.1 hrange.1
      cases more with
      | zero =>
        have hbits : 0 < bits := hs.resolve_right fun h => absurd h.1 (Nat.lt_irrefl 0)
        refine ⟨fun hmem => ?_, trivial⟩
        have := eq_of_ofNat_eq_quote (List.mem_singleton.1 hmem).symm
        omega
      | succ more =>
        refine ⟨List.not_mem_nil, .inl ?_⟩
        rcases hs with hs | ⟨-, hs⟩ <;> omega
    · refine ⟨?_, hnext⟩
      rw [List.mem_cons, not_or]
      exact ⟨by decide, hchars⟩

/-- A quote is read only from its own byte. -/
theorem quote_not_mem_decode {bytes : List UInt8} (h : 0x27 ∉ bytes) : '\x27' ∉ (decode bytes).toList := by
  rw [decode, String.toList_ofList]
  suffices hstate : ∀ s : State, s.Lawful → '\x27' ∉ s.decode bytes from hstate .ready trivial
  induction bytes with
  | nil =>
    intro s _
    cases s with
    | ready => exact List.not_mem_nil
    | inside =>
      have hreplacement : '\x27' ∉ [replacement] := by decide
      exact hreplacement
  | cons b bytes ih =>
    intro s hs
    rw [List.mem_cons, not_or] at h
    obtain ⟨hchars, hnext⟩ := quoteless_feed hs (Ne.symm h.1)
    rw [State.decode_cons, List.mem_append, not_or]
    exact ⟨hchars, ih h.2 _ hnext⟩

end Text.Utf8

namespace Closure

/-! ### Tokens -/

/-- A word holds no quote. -/
def Token.Lawful (t : Token) : Prop := t.kind = .word → '\x27' ∉ t.text.toList

theorem quote_not_mem_of_isWordByte {bytes : List UInt8} (h : bytes.all isWordByte = true) : 0x27 ∉ bytes := by
  intro hmem
  exact absurd (List.all_eq_true.1 h _ hmem) (by decide)

theorem lawful_scanFrom (position : Nat) (bytes : List UInt8) : ∀ t ∈ (scanFrom position bytes).tokens, t.Lawful := by
  fun_induction scanFrom position bytes with
  | case1 | case2 | case3 => exact List.forall_mem_nil _
  | case4 position bytes start b rest hbytes kind more hlexeme t later ih =>
    refine List.forall_mem_cons.2 ⟨fun hword => ?_, ih⟩
    obtain rfl : kind = .word := hword
    obtain ⟨hb, rfl⟩ := lexeme_word hlexeme
    have hmore : rest.take (rest.takeWhile isWordByte).length = rest.takeWhile isWordByte :=
      (List.prefix_iff_eq_take.1 (List.takeWhile_prefix isWordByte)).symm
    have hall : (b :: rest.takeWhile isWordByte).all isWordByte = true := by
      rw [List.all_cons, List.all_takeWhile, isWordByte, hb]
      rfl
    refine Text.Utf8.quote_not_mem_decode ?_
    rw [show t.bytes = b :: rest.takeWhile isWordByte from congrArg (List.cons b) hmore]
    exact quote_not_mem_of_isWordByte hall

/-- The words that are left hold no quotes. -/
def Stream.Lawful (s : Stream) : Prop := ∀ t ∈ s.rest, t.Lawful

namespace Stream

variable {s after : Stream} {t : Token}

theorem lawful_ofText (text : String) : (ofText text).Lawful := lawful_scanFrom 0 (Text.Utf8.encode text)

theorem Lawful.next (hs : s.Lawful) (h : s.next = .ok (t, after)) : t.Lawful ∧ after.Lawful := by
  unfold Stream.next at h
  split at h
  · next hrest =>
    cases h
    unfold Lawful at hs
    rw [hrest] at hs
    exact List.forall_mem_cons.1 hs
  · cases h
  · cases h

theorem Lawful.expect {kind : TokenKind} {what : String} (hs : s.Lawful) (h : s.expect kind what = .ok (t, after)) :
    t.kind = kind ∧ t.Lawful ∧ after.Lawful := by
  obtain ⟨⟨u, s₁⟩, hu, h⟩ := bind_eq_ok.1 h
  dsimp only at h
  split at h
  · next hkind =>
    cases h
    exact ⟨hkind, hs.next hu⟩
  · cases h

theorem Lawful.expect_word {what : String} (hs : s.Lawful) (h : s.expect .word what = .ok (t, after)) :
    '\x27' ∉ t.text.toList ∧ after.Lawful := by
  obtain ⟨hkind, ht, hafter⟩ := hs.expect h
  exact ⟨ht hkind, hafter⟩

theorem Lawful.accept {kind : TokenKind} (hs : s.Lawful) (h : s.accept kind = .ok (some after)) : after.Lawful := by
  unfold Stream.accept at h
  split at h
  · next hrest =>
    split at h <;> cases h
    unfold Lawful at hs
    rw [hrest] at hs
    exact (List.forall_mem_cons.1 hs).2
  · cases h
  · cases h

end Stream

/-! ### Trees -/

/-- What an operand of literals and lists of them is. -/
inductive Constant : Value → Prop where
  | literal {value : Value} (hv : Filter.isLiteral value = true) : Constant value
  | list {values : List Value} (hv : ∀ value ∈ values, Constant value) : Constant (.array values)

/-- The trees that closures are read to. -/
inductive Grammatical (collections : Entries Collection) : Expr → Prop where
  | member {owner words : List String} (ho : owner = [] ∨ ∃ c ∈ collections, owner = [c.2.outputName])
    (hw : ∀ word ∈ words, '\x27' ∉ word.toList) : Grammatical collections (.member (Text.joinWith "." (owner ++ words)))
  | literal {value : Value} (hv : Constant value) : Grammatical collections (.literal value)
  | arithmetic {op : ArithmeticOp} {left right : Expr} (hl : Grammatical collections left)
    (hr : Grammatical collections right) : Grammatical collections (.arithmetic op left right)
  | comparison {op : ComparisonOp} {left right : Expr} (hl : Grammatical collections left)
    (hr : Grammatical collections right) : Grammatical collections (.comparison op left (some right))
  | logical {op : LogicalOp} {args : List Expr} (ha : ∀ e ∈ args, Grammatical collections e) :
    Grammatical collections (.logical op args)
  | call {m : Method} {args : List Expr} (ha : ∀ e ∈ args, Grammatical collections e) :
    Grammatical collections (.call m.name args)
  | object {entries : Entries Expr} (he : ∀ entry ∈ entries, Grammatical collections entry.2) :
    Grammatical collections (.object entries)
  | sequence {items : List Expr} (hi : ∀ e ∈ items, Grammatical collections e) :
    Grammatical collections (.sequence items)

section Yields

variable {collections : Entries Collection} {e : Expr}

theorem Grammatical.negated (h : Grammatical collections e) : Grammatical collections e.negated := by
  unfold Expr.negated
  split
  · split
    · exact .arithmetic (.literal (.literal rfl)) (.literal (.literal rfl))
    · exact .literal (.literal rfl)
  · exact .literal (.literal rfl)
  · exact .arithmetic (.literal (.literal rfl)) h

theorem Grammatical.combine {op : LogicalOp} {left right : Expr} (hl : Grammatical collections left)
    (hr : Grammatical collections right) : Grammatical collections (left.combine op right) := by
  have hpair : Grammatical collections (.logical op [left, right]) := by
    refine .logical ?_
    simp [hl, hr]
  unfold Expr.combine
  split
  · split
    · cases hl with
      | logical ha => exact .logical (List.forall_mem_append.2 ⟨ha, List.forall_mem_singleton.2 hr⟩)
    · exact hpair
  · exact hpair

theorem receiverCall_grammatical {name : String} {receiver : Expr} {args : List Expr}
    (hr : Grammatical collections receiver) (ha : ∀ e ∈ args, Grammatical collections e)
    (h : receiverCall name receiver args = .ok e) : Grammatical collections e := by
  unfold receiverCall at h
  split at h <;> cases h
  exact .call (List.forall_mem_cons.2 ⟨hr, ha⟩)

/-- What a reader of operands gives is grammatical, and words that are left hold no quotes. -/
def OperandParser.Yields (operand : OperandParser) (collections : Entries Collection) : Prop :=
  ∀ {power : Nat} {s after : Stream} {o : Sized}, s.Lawful → (operand power).run s = .ok (o, after) →
    Grammatical collections o.expr ∧ after.Lawful

theorem items_yields {α : Type} {item : Reader α} {P : α → Prop}
    (hP : ∀ {s after : Stream} {a : α}, s.Lawful → item.run s = .ok (a, after) → P a ∧ after.Lawful) {close : TokenKind}
    {separators : List TokenKind} {what : String} {s after : Stream} {as : List α} (hs : s.Lawful)
    (h : items item close separators what s = .ok (as, after)) : (∀ a ∈ as, P a) ∧ after.Lawful := by
  fun_induction items item close separators what s generalizing as after with
  | case1 | case3 | case4 | case6 | case8 => cases h
  | case2 s _ hclose =>
    cases h
    exact ⟨List.forall_mem_nil _, hs.accept hclose⟩
  | case5 s _ a s₁ ha t s₂ ht _ =>
    cases h
    obtain ⟨hitem, hs₁⟩ := hP hs ha
    exact ⟨List.forall_mem_singleton.2 hitem, (hs₁.next ht).2⟩
  | case7 s _ a s₁ ha t s₂ ht _ _ more rest hi ih =>
    cases h
    obtain ⟨hitem, hs₁⟩ := hP hs ha
    obtain ⟨hmore, hrest⟩ := ih (hs₁.next ht).2 hi
    exact ⟨List.forall_mem_cons.2 ⟨hitem, hmore⟩, hrest⟩

theorem forall_mem_exprs {operands : List Sized} (h : ∀ o ∈ operands, Grammatical collections o.expr) :
    ∀ e ∈ operands.map Sized.expr, Grammatical collections e :=
  List.forall_mem_map.2 h

variable {operand : OperandParser} {s after : Stream} {o : Sized}

theorem arguments_yields (ho : operand.Yields collections) {args : List Sized} (hs : s.Lawful)
    (h : arguments operand s = .ok (args, after)) :
    (∀ e ∈ args.map Sized.expr, Grammatical collections e) ∧ after.Lawful := by
  obtain ⟨⟨t, s₁⟩, ht, h⟩ := bind_eq_ok.1 h
  obtain ⟨hargs, hafter⟩ := items_yields ho (hs.expect ht).2.2 h
  exact ⟨forall_mem_exprs hargs, hafter⟩

theorem array_yields (ho : operand.Yields collections) (hs : s.Lawful) (h : array operand s = .ok (o, after)) :
    Grammatical collections o.expr ∧ after.Lawful := by
  obtain ⟨⟨elements, s₁⟩, hi, h⟩ := bind_eq_ok.1 h
  cases h
  have helement : ∀ {s after : Stream} {element : Value × Nat}, s.Lawful →
      (Closure.element operand).run s = .ok (element, after) → Constant element.1 ∧ after.Lawful := by
    intro s after element hs h
    obtain ⟨⟨o, s₂⟩, hr, h⟩ := bind_eq_ok.1 h
    obtain ⟨hexpr, hafter⟩ := ho hs hr
    dsimp only at h hexpr
    split at h
    · next heq =>
      cases h
      rw [heq] at hexpr
      cases hexpr with
      | literal hv => exact ⟨hv, hafter⟩
    · cases h
  obtain ⟨helements, hafter⟩ := items_yields helement hs hi
  exact ⟨.literal (.list (List.forall_mem_map.2 helements)), hafter⟩

theorem object_yields (ho : operand.Yields collections) (hs : s.Lawful) (h : object operand s = .ok (o, after)) :
    Grammatical collections o.expr ∧ after.Lawful := by
  obtain ⟨⟨members, s₁⟩, hi, h⟩ := bind_eq_ok.1 h
  cases h
  have hmember : ∀ {s after : Stream} {m : String × Sized}, s.Lawful → (member operand).run s = .ok (m, after) →
      Grammatical collections m.2.expr ∧ after.Lawful := by
    intro s after m hs h
    obtain ⟨⟨key, s₁⟩, hkey, h⟩ := bind_eq_ok.1 h
    obtain ⟨name, -, h⟩ := bind_eq_ok.1 h
    obtain ⟨⟨colon, s₂⟩, hcolon, h⟩ := bind_eq_ok.1 h
    obtain ⟨⟨o, s₃⟩, hr, h⟩ := bind_eq_ok.1 h
    cases h
    exact ho ((hs.next hkey).2.expect hcolon).2.2 hr
  obtain ⟨hmembers, hafter⟩ := items_yields hmember hs hi
  refine ⟨.object fun entry hentry => ?_, hafter⟩
  rcases Entries.mem_of_mem_insertAll hentry with hentry | hentry
  · obtain ⟨m, hm, rfl⟩ := List.mem_map.1 hentry
    exact hmembers m hm
  · cases hentry

/-! ### Paths -/

theorem pathSegments_yields {segments : List String} (hs : s.Lawful) (h : pathSegments s = .ok (segments, after)) :
    (∀ word ∈ segments, '\x27' ∉ word.toList) ∧ after.Lawful := by
  fun_induction pathSegments s generalizing segments after with
  | case1 | case3 | case4 | case5 => cases h
  | case2 | case7 =>
    cases h
    exact ⟨List.forall_mem_nil _, hs⟩
  | case6 s _ _ _ _ s₁ hd word s₂ hw more rest hr ih =>
    cases h
    obtain ⟨hword, hs₂⟩ := (hs.next hd).2.expect_word hw
    obtain ⟨hmore, hrest⟩ := ih hs₂ hr
    exact ⟨List.forall_mem_cons.2 ⟨hword, hmore⟩, hrest⟩

theorem ownedPath_yields (ho : operand.Yields collections) {owner path : List String} {whole : String}
    (howner : owner = [] ∨ ∃ c ∈ collections, owner = [c.2.outputName]) (hpath : ∀ word ∈ path, '\x27' ∉ word.toList)
    (hs : s.Lawful) (h : ownedPath operand owner path whole s = .ok (o, after)) :
    Grammatical collections o.expr ∧ after.Lawful := by
  have hfront : Grammatical collections (.member (Text.joinWith "." (owner ++ path.dropLast))) :=
    .member howner fun word hword => hpath word (List.dropLast_subset path hword)
  obtain ⟨called, -, h⟩ := bind_eq_ok.1 h
  dsimp only at h
  split at h
  · cases h
  · split at h
    · split at h
      · cases h
      · obtain ⟨⟨args, s₁⟩, ha, h⟩ := bind_eq_ok.1 h
        obtain ⟨e, he, h⟩ := bind_eq_ok.1 h
        cases h
        obtain ⟨hargs, hafter⟩ := arguments_yields ho hs ha
        exact ⟨receiverCall_grammatical hfront hargs he, hafter⟩
    · split at h
      · cases h
        exact ⟨.call (List.forall_mem_singleton.2 hfront), hs⟩
      · cases h
        exact ⟨.member howner hpath, hs⟩

theorem freePath_yields (ho : operand.Yields collections) {path : List String} (hs : s.Lawful)
    (h : freePath operand path s = .ok (o, after)) : Grammatical collections o.expr ∧ after.Lawful := by
  obtain ⟨called, -, h⟩ := bind_eq_ok.1 h
  split at h
  · obtain ⟨⟨args, s₁⟩, ha, h⟩ := bind_eq_ok.1 h
    obtain ⟨m, -, h⟩ := bind_eq_ok.1 h
    cases h
    obtain ⟨hargs, hafter⟩ := arguments_yields ho hs ha
    exact ⟨.call hargs, hafter⟩
  · cases h

theorem link_yields (ho : operand.Yields collections) {receiver : Sized} (hr : Grammatical collections receiver.expr)
    (hs : s.Lawful) (h : link operand receiver s = .ok (o, after)) :
    Grammatical collections o.expr ∧ after.Lawful := by
  obtain ⟨⟨word, s₁⟩, hw, h⟩ := bind_eq_ok.1 h
  have hs₁ := (hs.expect hw).2.2
  obtain ⟨called, -, h⟩ := bind_eq_ok.1 h
  split at h
  · obtain ⟨⟨args, s₂⟩, ha, h⟩ := bind_eq_ok.1 h
    obtain ⟨e, he, h⟩ := bind_eq_ok.1 h
    cases h
    obtain ⟨hargs, hafter⟩ := arguments_yields ho hs₁ ha
    exact ⟨receiverCall_grammatical hr hargs he, hafter⟩
  · split at h
    · cases h
      exact ⟨.call (List.forall_mem_singleton.2 hr), hs₁⟩
    · cases h

theorem chain_yields (ho : operand.Yields collections) {receiver : Sized} (hr : Grammatical collections receiver.expr)
    (hs : s.Lawful) (h : chain operand receiver s = .ok (o, after)) :
    Grammatical collections o.expr ∧ after.Lawful := by
  fun_induction chain operand receiver s with
  | case1 | case3 | case4 => cases h
  | case2 =>
    cases h
    exact ⟨hr, hs⟩
  | case5 receiver s s₁ hd o₁ s₂ hl _ ih =>
    obtain ⟨hexpr, hs₂⟩ := link_yields ho hr (hs.accept hd) hl
    exact ih hexpr hs₂ h

theorem owner?_eq_some {scope : Scope} {name : String} {owner : List String} (h : scope.owner? name = some owner) :
    owner = [] ∨ ∃ c ∈ scope.collections, owner = [c.2.outputName] := by
  unfold Scope.owner? at h
  split at h
  · cases h
    exact .inl rfl
  · obtain ⟨c, hc, rfl⟩ := Option.map_eq_some_iff.1 h
    exact .inr ⟨(name, c), Entries.mem_of_get? hc, rfl⟩

variable {scope : Scope}

theorem path_yields (ho : operand.Yields scope.collections) {first : String} (hs : s.Lawful)
    (h : path scope operand first s = .ok (o, after)) : Grammatical scope.collections o.expr ∧ after.Lawful := by
  obtain ⟨⟨segments, s₁⟩, hsegments, h⟩ := bind_eq_ok.1 h
  obtain ⟨⟨o₁, s₂⟩, hp, h⟩ := bind_eq_ok.1 h
  obtain ⟨hwords, hs₁⟩ := pathSegments_yields hs hsegments
  unfold pathOperand at hp
  split at hp
  · next howner =>
    obtain ⟨hexpr, hs₂⟩ := ownedPath_yields ho (owner?_eq_some howner) hwords hs₁ hp
    exact chain_yields ho hexpr hs₂ h
  · obtain ⟨hexpr, hs₂⟩ := freePath_yields ho hs₁ hp
    exact chain_yields ho hexpr hs₂ h

/-! ### Operands -/

theorem number_grammatical {t : Token} (h : number t = .ok e) : Grammatical collections e := by
  unfold number at h
  dsimp only at h
  split at h <;> cases h
  next hvalue =>
  refine .literal (.literal ?_)
  split at hvalue <;> obtain ⟨x, -, rfl⟩ := Option.map_eq_some_iff.1 hvalue <;> rfl

theorem isLiteral_of_wordLiteral? {word : String} {value : Value} (h : wordLiteral? word = some value) :
    Filter.isLiteral value = true := by
  unfold wordLiteral? at h
  split at h <;> cases h <;> rfl

theorem primary_yields (ho : operand.Yields scope.collections) (hs : s.Lawful)
    (h : primary scope operand s = .ok (o, after)) : Grammatical scope.collections o.expr ∧ after.Lawful := by
  obtain ⟨⟨t, s₁⟩, ht, h⟩ := bind_eq_ok.1 h
  obtain ⟨-, hs₁⟩ := hs.next ht
  dsimp only at h
  split at h
  · obtain ⟨e, he, h⟩ := bind_eq_ok.1 h
    cases h
    exact ⟨number_grammatical he, hs₁⟩
  · cases h
    exact ⟨.literal (.literal rfl), hs₁⟩
  · cases h
    exact ⟨.literal (.literal rfl), hs₁⟩
  · obtain ⟨⟨o₁, s₂⟩, hr, h⟩ := bind_eq_ok.1 h
    obtain ⟨⟨u, s₃⟩, hu, h⟩ := bind_eq_ok.1 h
    cases h
    obtain ⟨hexpr, hs₂⟩ := ho hs₁ hr
    exact ⟨hexpr, (hs₂.expect hu).2.2⟩
  · exact object_yields ho hs₁ h
  · exact array_yields ho hs₁ h
  · obtain ⟨⟨o₁, s₂⟩, hr, h⟩ := bind_eq_ok.1 h
    cases h
    obtain ⟨hexpr, hs₂⟩ := ho hs₁ hr
    exact ⟨hexpr.negated, hs₂⟩
  · obtain ⟨⟨o₁, s₂⟩, hr, h⟩ := bind_eq_ok.1 h
    cases h
    obtain ⟨hexpr, hs₂⟩ := ho hs₁ hr
    exact ⟨.logical (List.forall_mem_singleton.2 hexpr), hs₂⟩
  · split at h
    · next hvalue =>
      cases h
      exact ⟨.literal (.literal (isLiteral_of_wordLiteral? hvalue)), hs₁⟩
    · exact path_yields ho hs₁ h
  · cases h

theorem apply_grammatical {op : BinaryOp} {left right : Sized} (hl : Grammatical collections left.expr)
    (hr : Grammatical collections right.expr) : Grammatical collections (op.apply left right).expr := by
  cases op with
  | logical => exact hl.combine hr
  | comparison => exact .comparison hl hr
  | arithmetic => exact .arithmetic hl hr

theorem nextOperator_lawful {minPower : Nat} {op : BinaryOp} (hs : s.Lawful)
    (h : nextOperator minPower s = .ok (some (op, after))) : after.Lawful := by
  unfold nextOperator at h
  split at h
  · next hrest =>
    unfold Stream.Lawful at hs
    rw [hrest] at hs
    split at h
    · split at h <;> cases h
      exact (List.forall_mem_cons.1 hs).2
    · cases h
  · cases h
  · cases h

theorem operations_yields (ho : operand.Yields collections) {minPower : Nat} {left : Sized}
    (hl : Grammatical collections left.expr) (hs : s.Lawful) (h : operations operand minPower left s = .ok (o, after)) :
    Grammatical collections o.expr ∧ after.Lawful := by
  fun_induction operations operand minPower left s with
  | case1 | case3 | case4 => cases h
  | case2 =>
    cases h
    exact ⟨hl, hs⟩
  | case5 left s op s₁ hop right s₂ hr _ _ ih =>
    obtain ⟨hright, hs₂⟩ := ho (nextOperator_lawful hs hop) hr
    exact ih (apply_grammatical hl hright) hs₂ h

theorem expression_yields (scope : Scope) (depth : Nat) : (expression scope depth).Yields scope.collections := by
  induction depth with
  | zero =>
    intro power s after o _ h
    cases h
  | succ depth ih =>
    intro power s after o hs h
    obtain ⟨⟨q, s₁⟩, hq, h⟩ := bind_eq_ok.1 h
    obtain ⟨hexpr, hs₁⟩ := primary_yields ih hs hq
    exact operations_yields ih hexpr hs₁ h

/-! ### Closures -/

theorem skipType_lawful (hs : s.Lawful) (h : skipType s = .ok after) : after.Lawful := by
  obtain ⟨colon, hcolon, h⟩ := bind_eq_ok.1 h
  split at h
  · cases h
    exact fun t ht => hs.accept hcolon t (List.dropWhile_subset _ ht)
  · cases h
    exact hs

theorem barredParameter_lawful {name : Option String} (hs : s.Lawful) (h : barredParameter s = .ok (name, after)) :
    after.Lawful := by
  obtain ⟨pipe, hpipe, h⟩ := bind_eq_ok.1 h
  split at h
  · cases h
    exact hs.accept hpipe
  · obtain ⟨⟨t, s₁⟩, ht, h⟩ := bind_eq_ok.1 h
    obtain ⟨s₂, hs₂, h⟩ := bind_eq_ok.1 h
    obtain ⟨⟨u, s₃⟩, hu, h⟩ := bind_eq_ok.1 h
    cases h
    exact ((skipType_lawful (hs.expect ht).2.2 hs₂).expect hu).2.2

theorem parenthesizedParameter_lawful {name : Option String} (hs : s.Lawful)
    (h : parenthesizedParameter s = .ok (name, after)) : after.Lawful := by
  obtain ⟨paren, hparen, h⟩ := bind_eq_ok.1 h
  split at h
  · cases h
    exact hs.accept hparen
  · obtain ⟨⟨t, s₁⟩, ht, h⟩ := bind_eq_ok.1 h
    obtain ⟨⟨u, s₂⟩, hu, h⟩ := bind_eq_ok.1 h
    cases h
    exact ((hs.expect ht).2.2.expect hu).2.2

theorem header_lawful {name : Option String} (hs : s.Lawful) (h : header s = .ok (name, after)) : after.Lawful := by
  obtain ⟨⟨first, s₁⟩, hfirst, h⟩ := bind_eq_ok.1 h
  obtain ⟨-, hs₁⟩ := hs.next hfirst
  dsimp only at h
  split at h
  · cases h
    exact hs₁
  · exact barredParameter_lawful hs₁ h
  · obtain ⟨⟨t, s₂⟩, ht, h⟩ := bind_eq_ok.1 h
    cases h
    exact (hs₁.expect ht).2.2
  · obtain ⟨⟨name?, s₂⟩, hname, h⟩ := bind_eq_ok.1 h
    obtain ⟨⟨t, s₃⟩, ht, h⟩ := bind_eq_ok.1 h
    cases h
    exact ((parenthesizedParameter_lawful hs₁ hname).expect ht).2.2
  · cases h

theorem body_grammatical (ho : operand.Yields collections) (hs : s.Lawful) (h : body operand s = .ok (e, after)) :
    Grammatical collections e := by
  obtain ⟨brace, hbrace, h⟩ := bind_eq_ok.1 h
  split at h
  · have hs₁ := hs.accept hbrace
    obtain ⟨t?, -, h⟩ := bind_eq_ok.1 h
    split at h
    · obtain ⟨⟨t, s₂⟩, ht, h⟩ := bind_eq_ok.1 h
      obtain ⟨⟨o, s₃⟩, hr, h⟩ := bind_eq_ok.1 h
      obtain ⟨semicolon, -, h⟩ := bind_eq_ok.1 h
      obtain ⟨⟨u, s₄⟩, -, h⟩ := bind_eq_ok.1 h
      cases h
      exact (ho (hs₁.next ht).2 hr).1
    · obtain ⟨isObject, -, h⟩ := bind_eq_ok.1 h
      split at h
      · obtain ⟨⟨o, s₂⟩, hr, h⟩ := bind_eq_ok.1 h
        cases h
        exact (object_yields ho hs₁ hr).1
      · obtain ⟨⟨operands, s₂⟩, hi, h⟩ := bind_eq_ok.1 h
        cases h
        exact .sequence (forall_mem_exprs (items_yields ho hs₁ hi).1)
  · obtain ⟨⟨o, s₁⟩, hr, h⟩ := bind_eq_ok.1 h
    cases h
    exact (ho hs hr).1

mutual

theorem Grammatical.predicate : {e : Expr} → Grammatical collections e → Grammatical collections (predicate e)
  | .member _, h => by
    rw [Closure.predicate]
    exact .comparison h (.literal (.literal rfl))
  | .call _ _, h => by
    rw [Closure.predicate]
    exact .comparison h (.literal (.literal rfl))
  | .logical _ args, .logical ha => by
    rw [Closure.predicate]
    exact .logical (predicates_grammatical ha)
  | .literal _, h | .arithmetic .., h | .comparison .., h | .sequence _, h | .object _, h => by
    rw [Closure.predicate.eq_def]
    exact h

theorem predicates_grammatical : {args : List Expr} → (∀ e ∈ args, Grammatical collections e) →
    ∀ e ∈ predicates args, Grammatical collections e
  | [], _ => by
    rw [predicates]
    exact List.forall_mem_nil _
  | e :: es, h => by
    obtain ⟨he, hes⟩ := List.forall_mem_cons.1 h
    rw [predicates]
    exact List.forall_mem_cons.2 ⟨he.predicate, predicates_grammatical hes⟩

end

theorem Grammatical.unwrapSingle (h : Grammatical collections e) : Grammatical collections (unwrapSingle e) := by
  unfold Closure.unwrapSingle
  split
  · cases h with
    | sequence hi => exact List.forall_mem_singleton.1 hi
  · exact h

theorem grammatical_of_translate {c : Closure} (h : c.translate = .ok e) : Grammatical c.collections e := by
  obtain ⟨⟨parameter, s₁⟩, hheader, h⟩ := bind_eq_ok.1 h
  obtain ⟨⟨e', s₂⟩, hb, h⟩ := bind_eq_ok.1 h
  obtain ⟨t?, -, h⟩ := bind_eq_ok.1 h
  split at h
  · cases h
    have hs₁ := header_lawful (Stream.lawful_ofText c.source) hheader
    exact body_grammatical (expression_yields ⟨parameter, c.collections⟩ Expr.maxHeight) hs₁ hb
  · cases h

/-- A closure that states a condition gives a grammatical tree. -/
theorem grammatical_of_translateFilter {c : Closure} (h : c.translateFilter = .ok e) : Grammatical c.collections e := by
  obtain ⟨tree, htree, h⟩ := bind_eq_ok.1 h
  cases h
  exact (grammatical_of_translate htree).unwrapSingle.predicate

end Yields

end Closure

end SqlQuery
