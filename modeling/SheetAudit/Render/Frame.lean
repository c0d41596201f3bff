/-!
# The frame of the HTML report

The lines of the document before and after its contents: its style, and the script behind the
buttons that filter issues by severity.
-/

namespace SheetAudit
namespace Html

/-- The document up to its contents. -/
def header : List String :=
  ["<!DOCTYPE html>",
    "<html lang=\"en\">",
    "<head>",
    "    <meta charset=\"UTF-8\">",
    "    <meta name=\"viewport\" content=\"width=device-width, initial-scale=1.0\">",
    "    <title>Style Audit Report</title>",
    "    <style>",
    "        :root \x7b",
    "            --color-critical: #dc2626;",
    "            --color-moderate: #d97706;",
    "            --color-minor: #2563eb;",
    "            --color-bg: #f8fafc;",
    "            --color-card: #ffffff;",
    "            --color-border: #e2e8f0;",
    "            --color-text: #1e293b;",
    "            --color-text-muted: #64748b;",
    "            --color-code-bg: #f1f5f9;",
    "        \x7d",
    "        * \x7b box-sizing: border-box; margin: 0; padding: 0; \x7d",
    "        body \x7b",
    "            font-family: -apple-system, BlinkMacSystemFont, 'Segoe UI', Roboto, 'Helvetica Neue', Arial, sans-serif;",
    "            background: var(--color-bg);",
    "            color: var(--color-text);",
    "            line-height: 1.6;",
    "            padding: 2rem;",
    "        \x7d",
    "        .container \x7b max-width: 1200px; margin: 0 auto; \x7d",
    "        h1 \x7b font-size: 1.875rem; font-weight: 700; margin-bottom: 1.5rem; \x7d",
    "        h2 \x7b font-size: 1.25rem; font-weight: 600; margin: 1.5rem 0 1rem; \x7d",
    "        h3 \x7b font-size: 1rem; font-weight: 600; margin: 1.25rem 0 0.75rem; \x7d",
    "        .summary-grid \x7b display: grid; grid-template-columns: repeat(auto-fit, minmax(150px, 1fr)); gap: 1rem; margin-bottom: 2rem; \x7d",
    "        .summary-card \x7b background: var(--color-card); border-radius: 0.5rem; padding: 1.25rem; border: 1px solid var(--color-border); text-align: center; \x7d",
    "        .summary-card .value \x7b font-size: 2rem; font-weight: 700; display: block; \x7d",
    "        .summary-card .label \x7b font-size: 0.875rem; color: var(--color-text-muted); margin-top: 0.25rem; \x7d",
    "        .summary-card.critical .value \x7b color: var(--color-critical); \x7d",
    "        .summary-card.moderate .value \x7b color: var(--color-moderate); \x7d",
    "        .summary-card.minor .value \x7b color: var(--color-minor); \x7d",
    "        .filter-controls \x7b display: flex; gap: 0.5rem; margin-bottom: 1rem; flex-wrap: wrap; \x7d",
    "        .filter-btn \x7b padding: 0.5rem 1rem; border: 1px solid var(--color-border); background: var(--color-card); border-radius: 0.375rem; cursor: pointer; font-size: 0.875rem; \x7d",
    "        .filter-btn:hover \x7b background: var(--color-bg); \x7d",
    "        .filter-btn:focus-visible \x7b outline: 2px solid var(--color-minor); outline-offset: 2px; \x7d",
    "        .filter-btn.active \x7b background: var(--color-text); color: var(--color-card); border-color: var(--color-text); \x7d",
    "        table.categories \x7b width: 100%; border-collapse: collapse; background: var(--color-card); border: 1px solid var(--color-border); margin-bottom: 1rem; \x7d",
    "        table.categories th, table.categories td \x7b padding: 0.5rem 1rem; text-align: left; border-bottom: 1px solid var(--color-border); font-size: 0.875rem; \x7d",
    "        table.categories td.number \x7b text-align: right; font-variant-numeric: tabular-nums; \x7d",
    "        .issue \x7b background: var(--color-card); border: 1px solid var(--color-border); border-left-width: 4px; border-radius: 0.375rem; padding: 0.75rem 1rem; margin-bottom: 0.75rem; \x7d",
    "        .issue.critical \x7b border-left-color: var(--color-critical); \x7d",
    "        .issue.moderate \x7b border-left-color: var(--color-moderate); \x7d",
    "        .issue.minor \x7b border-left-color: var(--color-minor); \x7d",
    "        .issue.hidden \x7b display: none; \x7d",
    "        .issue .meta \x7b font-size: 0.75rem; color: var(--color-text-muted); \x7d",
    "        .issue .location \x7b font-family: 'SF Mono', SFMono-Regular, Consolas, 'Liberation Mono', Menlo, monospace; word-break: break-all; \x7d",
    "        .issue .message \x7b margin: 0.25rem 0; \x7d",
    "        .issue .suggestion \x7b font-size: 0.875rem; color: var(--color-text-muted); \x7d",
    "        .badge \x7b display: inline-block; padding: 0.125rem 0.5rem; border-radius: 9999px; font-size: 0.75rem; font-weight: 600; color: var(--color-card); \x7d",
    "        .badge.critical \x7b background: var(--color-critical); \x7d",
    "        .badge.moderate \x7b background: var(--color-moderate); \x7d",
    "        .badge.minor \x7b background: var(--color-minor); \x7d",
    "        pre \x7b background: var(--color-code-bg); border-radius: 0.375rem; padding: 0.5rem 0.75rem; margin-top: 0.5rem; font-size: 0.8125rem; overflow-x: auto; \x7d",
    "        .recommendations li \x7b margin-left: 1.25rem; margin-bottom: 0.25rem; \x7d",
    "        .footer \x7b margin-top: 2rem; padding-top: 1rem; border-top: 1px solid var(--color-border); font-size: 0.75rem; color: var(--color-text-muted); text-align: center; \x7d",
    "        .no-results \x7b padding: 2rem; text-align: center; color: var(--color-text-muted); \x7d",
    "        @media print \x7b",
    "            body \x7b background: white; color: black; padding: 1rem; \x7d",
    "            .filter-controls \x7b display: none; \x7d",
    "            .issue.hidden \x7b display: block; \x7d",
    "            .badge \x7b color: black; background: transparent !important; border: 1px solid currentColor; \x7d",
    "        \x7d",
    "    </style>",
    "</head>",
    "<body>",
    "    <div class=\"container\">",
    "        <h1>Style Audit Report</h1>"]

/-- The document after its contents. -/
def footer : List String :=
  ["        <div class=\"footer\">",
    "            Generated by <strong>style-audit</strong>",
    "        </div>",
    "    </div>",
    "    <script>",
    "        (function() \x7b",
    "            const filterBtns = document.querySelectorAll('.filter-btn');",
    "            filterBtns.forEach(btn => \x7b",
    "                btn.addEventListener('click', () => \x7b",
    "                    filterBtns.forEach(b => b.classList.remove('active'));",
    "                    btn.classList.add('active');",
    "                    const filter = btn.dataset.filter;",
    "                    document.querySelectorAll('.issue').forEach(issue => \x7b",
    "                        const hide = filter !== 'all' && issue.dataset.severity !== filter;",
    "                        issue.classList.toggle('hidden', hide);",
    "                    \x7d);",
    "                \x7d);",
    "            \x7d);",
    "        \x7d)();",
    "    </script>",
    "</body>",
    "</html>"]

end Html
end SheetAudit
