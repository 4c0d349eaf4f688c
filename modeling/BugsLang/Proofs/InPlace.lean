import BugsLang.Proofs.Matcher.Requests
import BugsLang.Proofs.Reader.Scanner

/-!
# A scanner knows where it is

A scanner keeps seven fields, and they are only of use because they fit together. The offset lies
between two characters of the source, and the line is the number of line ends in front of it, counted
from 1. If a token is put back, then the line is that of the token instead, and the other line is
kept to go on from. In front of the offset lies the lexeme of the token read last, and behind the
lexeme nothing but trivia. So the token can be handed out a second time, and what is read after that
is what follows it in the source.

A position in the source may lie anywhere. But a reader only ever comes to places between two
stretches, and what it comes to the scanner comes to as well.

## Main definitions

* `Position.IsCut source p`: the position lies between two stretches of the source.
* `Scanner.EndsWith`: the text in front of a scanner ends with the lexeme of a token.
* `Scanner.Sound source x`: the fields of the scanner fit together.

## Main statements

* `Scanner.Mirrors.sound`: a scanner that has come as far as a reader is sound.
* `scanner_is_sound_after_any_calls`: so it is after any calls, also after those of a matcher.
-/

namespace BugsLang

namespace Position

variable {source : String} {p q : Position}

/-- The position is a place in the source, between two of its stretches. -/
structure IsCut (source : String) (p : Position) : Prop where
  isIn : p.IsIn source.toList
  cut : ∃ front behind, Partition (front ++ behind) (dropByteOrderMark source.toList) ∧
    Partition behind p.text

theorem isCut_ofSource (source : String) : (ofSource source).IsCut source := by
  obtain ⟨stretches, h⟩ := exists_partition (dropByteOrderMark source.toList)
  exact ⟨isIn_ofSource source, [], stretches, h, h⟩

/-- Between a position and one that it reaches there is only trivia. -/
theorem Reaches.exists_trivia {behind : List Stretch} (hreaches : p.Reaches q)
    (h : Partition behind p.text) :
    ∃ (pieces : List Trivia.Piece) (others : List Stretch), behind = pieces.map .trivia ++ others ∧
      p.text = pieces.flatMap Trivia.Piece.text ++ q.text ∧ Partition others q.text := by
  rcases hreaches with rfl | rfl
  · exact ⟨[], behind, rfl, rfl, h⟩
  · obtain ⟨pieces, others, v, hbehind, htext, hlength, hv⟩ := h.exists_trivia
    have hpass : p.passTrivia.text = v := by
      show p.text.drop (Trivia.length .between p.text) = v
      rw [hlength, htext, List.drop_left]
    rw [hpass]
    exact ⟨pieces, others, hbehind, htext, hv⟩

theorem IsCut.reaches (h : p.IsCut source) (hreaches : p.Reaches q) : q.IsCut source := by
  obtain ⟨hin, front, behind, hsource, hbehind⟩ := h
  obtain ⟨pieces, others, rfl, -, hothers⟩ := hreaches.exists_trivia hbehind
  refine ⟨?_, front ++ pieces.map .trivia, others, ?_, hothers⟩
  · rcases hreaches with rfl | rfl
    · exact hin
    · exact hin.passTrivia
  · rwa [List.append_assoc]

/-- A lexeme that is ahead of a place between two stretches is the next stretch. -/
theorem IsCut.exists_behind {l : Lexeme} {v : List Char} (h : p.IsCut source)
    (htext : p.text = l.text ++ v) (hfits : l.Fits v) :
    ∃ front behind, Partition (front ++ .lexeme l :: behind) (dropByteOrderMark source.toList) ∧
      Partition behind v := by
  obtain ⟨front, ahead, hsource, hahead⟩ := h.cut
  obtain ⟨behind, hbehind⟩ := exists_partition v
  have hcut : Partition (.lexeme l :: behind) p.text := ⟨v, htext, hfits, hbehind⟩
  rw [hahead.eq hcut] at hsource
  exact ⟨front, behind, hsource, hbehind⟩

/-- A token that is read ends between two stretches of the source. -/
theorem IsCut.pastToken (h : p.IsCut source) (htrivia : p.passTrivia = p) :
    p.pastToken.IsCut source := by
  cases isAhead_of_passTrivia_eq htrivia with
  | @lexeme l htext hfits htoken hpast =>
    obtain ⟨front, behind, hsource, hbehind⟩ := h.exists_behind htext hfits
    refine ⟨h.isIn.pastToken, front ++ [.lexeme l], behind, ?_, hbehind⟩
    rwa [List.append_assoc]
  | inputEnd htext htoken hpast => rwa [hpast]

end Position

namespace Scanner

variable {source : String} {x : Scanner} {r : Reader} {p q start : Position} {before : List Char}

/-- The text in front ends with the lexeme of the token and then trivia only, and the line is the one
on which the lexeme starts. Where the token is the end of the input nothing more is ahead. -/
inductive EndsWith (source : String) (before ahead : List Char) (line : Nat) : Token → Prop where
  | lexeme {start : List Char} {front behind : List Stretch} {l : Lexeme}
      {pieces : List Trivia.Piece}
      (hbefore : before = start ++ (l.text ++ pieces.flatMap Trivia.Piece.text))
      (hsource : Partition (front ++ .lexeme l :: (pieces.map .trivia ++ behind))
        (Position.dropByteOrderMark source.toList))
      (hahead : Partition behind ahead) (hline : line = 1 + (lineEnds start).length) :
      EndsWith source before ahead line l.token
  | inputEnd (hahead : ahead = []) (hline : line = 1 + (lineEnds before).length) :
      EndsWith source before ahead line .inputEnd

/-- The fields of the scanner fit together, with the one text in front of it and the other ahead. -/
structure SoundAt (source : String) (x : Scanner) (before ahead : List Char) : Prop where
  source_eq : x.source = source
  cut : source.toList = before ++ ahead
  offset : x.offset = byteLength before
  /-- The source can be cut at the offset. -/
  isValid : (⟨x.offset⟩ : String.Pos.Raw).IsValid source
  /-- No line end is partly in front and partly ahead. -/
  lineEnds_eq : lineEnds source.toList = lineEnds before ++ lineEnds ahead
  line : x.isPutBack = false → x.line = 1 + (lineEnds before).length
  /-- Only a token that was read can be put back, and then its line is told. -/
  putBack : x.isPutBack = true → x.last.isSome = true ∧
    x.resumeLine = 1 + (lineEnds before).length ∧ x.line = x.tokenLine
  last : ∀ t ∈ x.last, EndsWith source before ahead x.tokenLine t

/-- The fields of the scanner fit together at some place in the source. -/
def Sound (source : String) (x : Scanner) : Prop :=
  ∃ before ahead, x.SoundAt source before ahead

/-- Behind a token, and the trivia that follows it, the text in front ends with the token. -/
theorem endsWith_of_reaches (hstart : start.IsCut source) (htrivia : start.passTrivia = start)
    (hreaches : start.pastToken.Reaches q) (hsource : source.toList = before ++ q.text) :
    EndsWith source before q.text start.line start.token.token := by
  obtain ⟨front, hfront, -, hline⟩ := hstart.isIn
  cases Position.isAhead_of_passTrivia_eq htrivia with
  | @lexeme l htext hfits htoken hpast =>
    obtain ⟨stretches, behind, hcut, hbehind⟩ := hstart.exists_behind htext hfits
    obtain ⟨pieces, others, rfl, hpieces, hothers⟩ := hreaches.exists_trivia hbehind
    have hbefore : before = front ++ (l.text ++ pieces.flatMap Trivia.Piece.text) := by
      apply List.append_cancel_right
      rw [← hsource, hfront, htext, hpieces, List.append_assoc, List.append_assoc]
    rw [htoken]
    exact .lexeme hbefore hcut hothers hline
  | inputEnd htext htoken hpast =>
    have hq : q = start := by
      rw [hpast] at hreaches
      rcases hreaches with rfl | rfl
      · rfl
      · exact htrivia
    rw [hq, htext] at hsource ⊢
    rw [htext] at hfront
    rw [htoken, List.append_cancel_right (hsource.symm.trans hfront)]
    exact .inputEnd rfl hline

/-- At a place in the source the offset and the line are right. -/
theorem StandsAt.sound (h : x.StandsAt source p) (hp : p.IsIn source.toList)
    (hputBack : x.isPutBack = true → x.last.isSome = true ∧ x.line = x.tokenLine)
    (hlast : ∀ before, source.toList = before ++ p.text →
      ∀ t ∈ x.last, EndsWith source before p.text x.tokenLine t) : x.Sound source := by
  obtain ⟨before, hbefore, hsplits, hline⟩ := hp
  obtain ⟨front, hfront, hoffset⟩ := restFrom_eq_some_iff.1 h.rest
  have hvalid := isValid_of_restFrom h.rest
  rw [h.source_eq] at hfront hvalid
  obtain rfl : front = before := List.append_cancel_right (hfront.symm.trans hbefore)
  refine ⟨front, p.text, h.source_eq, hfront, hoffset, hvalid, ?_, ?_, ?_, hlast front hfront⟩
  · rw [hfront, lineEnds_append hsplits]
  · intro hback
    rw [← lineHere_of_not_isPutBack hback, h.line, hline]
  · intro hback
    obtain ⟨hsome, htokenLine⟩ := hputBack hback
    have hhere := h.line
    rw [lineHere, if_pos hback] at hhere
    exact ⟨hsome, hhere.trans hline, htokenLine⟩

/-- What is kept of the token read last is true. -/
theorem HasRead.endsWith (h : x.HasRead start) (hstart : start.IsCut source)
    (hreaches : start.pastToken.Reaches q) (hsource : source.toList = before ++ q.text) :
    ∀ t ∈ x.last, EndsWith source before q.text x.tokenLine t := by
  intro t ht
  rw [h.last] at ht
  rw [← Option.some.inj ht, h.line]
  exact endsWith_of_reaches hstart h.trivia hreaches hsource

/-- A scanner that mirrors a reader which only knows places between two stretches is sound. -/
theorem Mirrors.sound (h : Mirrors source x r) (hr : r.Within (Position.IsCut source)) :
    x.Sound source := by
  obtain ⟨hhere, hmark⟩ := hr
  cases h with
  | @fresh p hat hlast hback =>
    have hnot : ¬ x.isPutBack = true := Bool.eq_false_iff.1 hback
    refine hat.sound hhere.isIn (fun h => absurd h hnot) ?_
    intro before _ t ht
    rw [hlast] at ht
    cases ht
  | @behind p q start hat hread hback hreaches hpass =>
    have hstart : start.IsCut source := hmark start rfl
    have hq := (hstart.pastToken hread.trivia).reaches hreaches
    have hnot : ¬ x.isPutBack = true := Bool.eq_false_iff.1 hback
    exact hat.sound hq.isIn (fun h => absurd h hnot) fun before => hread.endsWith hstart hreaches
  | @holding q start hat hread hback hline hreaches =>
    have hstart : start.IsCut source := hhere
    have hq := (hstart.pastToken hread.trivia).reaches hreaches
    refine hat.sound hq.isIn ?_ fun before => hread.endsWith hstart hreaches
    intro _
    rw [hread.last, hline, hread.line]
    exact ⟨rfl, rfl⟩

end Scanner

/-- A place between two stretches is all that a reader ever comes to. -/
theorem Reader.kept_isCut (source : String) : Kept (Within (Position.IsCut source)) := by
  refine kept_within fun p hp => ?_
  have hstart : p.passTrivia.IsCut source := hp.reaches (.inr rfl)
  exact ⟨hstart, hstart.pastToken (Position.passTrivia_passTrivia p)⟩

/-- Whatever the calls and their order, a scanner answers them all, as a reader does, and afterwards
its fields fit together. So they do if the calls are those that a matcher makes in the course of any
calls to it. -/
theorem scanner_is_sound_after_any_calls (source : String) :
    (∀ calls, ∃ x, (Scanner.ofSource source).performAll calls =
        some ((Reader.ofSource source).replies calls, x) ∧ x.Sound source) ∧
      ∀ calls, let asked := (Matcher.ofSource source).requests calls
        ((Matcher.ofSource source).after calls).reader = (Reader.ofSource source).after asked ∧
          ∃ x, (Scanner.ofSource source).performAll asked =
            some ((Reader.ofSource source).replies asked, x) ∧ x.Sound source := by
  have hmirrors := Scanner.mirrors_ofSource source
  have hstart : (Reader.ofSource source).Within (Position.IsCut source) :=
    ⟨Position.isCut_ofSource source, fun _ h => nomatch h⟩
  have hreader (calls : List Reader.Call) : ∃ x, (Scanner.ofSource source).performAll calls =
      some ((Reader.ofSource source).replies calls, x) ∧ x.Sound source := by
    obtain ⟨x, hperform, hx⟩ := hmirrors.performAll calls
    exact ⟨x, hperform, hx.sound ((Reader.kept_isCut source).after hstart calls)⟩
  refine ⟨hreader, fun calls => ⟨?_, hreader _⟩⟩
  exact Matcher.reader_after_eq rfl calls

end BugsLang
