import Canonmark.Markdown.Inline
import Canonmark.Markdown.Tip

/-! The tokens of a markdown text. -/
namespace Canonmark.Markdown.Reader

def numbering? : Marker → Option Numbering
  | .bullet _ => none
  | .ordered number paren => some ⟨String.ofList (Text.Numeral.ofNat number), paren⟩

/-- The content of a heading. One without text holds an empty text. -/
def headingContent (ds : List Definition) (text : Chars) : List Token :=
  if text.isEmpty then [.text ""] else Inline.tokens ds text

mutual

/-- The token of a block, the definitions of its document being given. `final` tells whether it ends
an item. -/
def token (ds : List Definition) (final : Bool) : Block → Token
  | .blank | .definition _ => .blankLine
  | .thematicBreak => .sign .thematicBreak
  | .heading level text => .heading level.text (headingContent ds text)
  | .paragraph text => .wrapper .paragraph (Inline.tokens ds text)
  | .code info text => .codeBlock (String.ofList (info.getD [])) (String.ofList text)
  | .html text => .verbatim .htmlBlock (String.ofList text)
  | .quote children => .wrapper .blockQuote (tokensIn ds false children)
  | .list marker items =>
    .list (numbering? marker) (!Block.isLoose final items) (itemTokens ds items)

def tokensIn (ds : List Definition) (inItem : Bool) : List Block → List Token
  | [] => []
  | b :: bs => token ds (inItem && !bs.any Block.hasContent) b :: tokensIn ds inItem bs

def itemTokens (ds : List Definition) : List (List Block) → List Token
  | [] => []
  | item :: items => .wrapper .item (tokensIn ds true item) :: itemTokens ds items

end

def tokens (s : Chars) : List Token :=
  let blocks := blocksOf s
  tokensIn (Block.definitionsOf blocks) false blocks

end Canonmark.Markdown.Reader
