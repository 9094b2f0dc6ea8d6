/-! How deep the parts of a markdown text can be nested. -/
namespace Canonmark.Markdown

/-- Quotes and lists nest at most so deep, and so do emphasis, links and images, and the parentheses
in a destination. -/
def maxDepth : Nat := 20

end Canonmark.Markdown
