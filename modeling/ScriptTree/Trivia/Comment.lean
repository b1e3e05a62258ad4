import ScriptTree.Text.Blank
import ScriptTree.Tree.Leaf

namespace ScriptTree

/-- What a comment says: its text without the marks at its front and the blanks around it. -/
def Text.commentContent (s : Text) : Text := trim (s.dropWhile (· == '#'))

namespace PlacedToken

def isComment (t : PlacedToken) : Bool := t.kind == .comment

def isSpace (t : PlacedToken) : Bool := t.kind == .whitespace || t.kind == .newline

def isNewline (t : PlacedToken) : Bool := t.kind == .newline

def commentContent? (t : PlacedToken) : Option Text :=
  if t.isComment then some (Text.commentContent t.text) else none

end PlacedToken

def Tree.comments (t : Tree) : List PlacedToken := t.tokens.filter PlacedToken.isComment

end ScriptTree
